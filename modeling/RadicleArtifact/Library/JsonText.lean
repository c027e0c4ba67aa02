import Mathlib
import RadicleArtifact.Library.Json

/-!
# JSON as text

The compact printer and the parser of JSON texts, as lists of characters.  A
printed document holds no control characters, so it stays on one line, and parses
back to itself.  The decimal form of doubles is a parameter: documents without
doubles, which are all that the statements below speak of, do not depend on it.
-/

namespace RadicleArtifact.Library.Json

/-- The decimal form of doubles. -/
structure Floats where
  print : UInt64 → List Char
  parse : List Char → Option UInt64

/-! ## Strings -/

def quote : Char := Char.ofNat 0x22

def backslash : Char := Char.ofNat 0x5c

/-- The letter that stands for a character after a backslash. -/
def escapes : List (Char × Char) :=
  [(quote, quote), (backslash, backslash), (Char.ofNat 0x08, 'b'), (Char.ofNat 0x0c, 'f'),
    (Char.ofNat 0x0a, 'n'), (Char.ofNat 0x0d, 'r'), (Char.ofNat 0x09, 't')]

def escapeChar (char : Char) : List Char :=
  match escapes.lookup char with
  | some letter => [backslash, letter]
  | none =>
      if char.toNat < 0x20 then
        [backslash, 'u', '0', '0', (char.toNat / 16).digitChar, (char.toNat % 16).digitChar]
      else [char]

def printString (text : String) : List Char :=
  quote :: (text.toList.flatMap escapeChar ++ [quote])

def hexValue (char : Char) : Option ℕ :=
  if '0' ≤ char ∧ char ≤ '9' then some (char.toNat - 48)
  else if 'a' ≤ char ∧ char ≤ 'f' then some (char.toNat - 87)
  else if 'A' ≤ char ∧ char ≤ 'F' then some (char.toNat - 55)
  else none

/-- Four hexadecimal digits. -/
def parseHex : List Char → Option (ℕ × List Char)
  | first :: second :: third :: fourth :: rest => do
      let first ← hexValue first
      let second ← hexValue second
      let third ← hexValue third
      let fourth ← hexValue fourth
      return (((first * 16 + second) * 16 + third) * 16 + fourth, rest)
  | _ => none

/-- What follows the letter `u`: a scalar value, or two surrogates that make one. -/
def parseUnicode (text : List Char) : Option (Char × List Char) := do
  let (unit, rest) ← parseHex text
  if unit < 0xd800 ∨ 0xe000 ≤ unit then return (Char.ofNat unit, rest)
  if 0xdc00 ≤ unit then none
  match rest with
  | slash :: letter :: rest =>
      if slash = backslash ∧ letter = 'u' then do
        let (low, rest) ← parseHex rest
        if 0xdc00 ≤ low ∧ low < 0xe000 then
          return (Char.ofNat (0x10000 + (unit - 0xd800) * 0x400 + (low - 0xdc00)), rest)
        none
      else none
  | _ => none

/-- The character that a letter after a backslash stands for. -/
def unescape (letter : Char) : Option Char :=
  if letter = '/' then some '/'
  else (escapes.find? fun entry => entry.2 = letter).map Prod.fst

/-- One character of a string. -/
def parseChar : List Char → Option (Char × List Char)
  | [] => none
  | char :: rest =>
      if char = backslash then
        match rest with
        | [] => none
        | letter :: rest =>
            if letter = 'u' then parseUnicode rest
            else (unescape letter).map fun char => (char, rest)
      else if char.toNat < 0x20 then none
      else some (char, rest)

/-- The characters up to the closing quote. -/
def parseBody : ℕ → List Char → Option (List Char × List Char)
  | 0, _ => none
  | fuel + 1, text =>
      match text with
      | [] => none
      | char :: rest =>
          if char = quote then some ([], rest)
          else do
            let (first, rest) ← parseChar text
            let (chars, rest) ← parseBody fuel rest
            return (first :: chars, rest)

theorem lookup_escapes_eq_some {char letter : Char}
    (hletter : escapes.lookup char = some letter) :
    letter ≠ 'u' ∧ unescape letter = some char := by
  have hmem : (char, letter) ∈ escapes := by
    obtain ⟨before, after, hentries, -⟩ := List.lookup_eq_some_iff.mp hletter
    rw [hentries]
    simp
  simp only [escapes, List.mem_cons, Prod.mk.injEq, List.not_mem_nil, or_false] at hmem
  rcases hmem with ⟨rfl, rfl⟩ | ⟨rfl, rfl⟩ | ⟨rfl, rfl⟩ | ⟨rfl, rfl⟩ | ⟨rfl, rfl⟩ | ⟨rfl, rfl⟩ |
    ⟨rfl, rfl⟩ <;> decide

theorem ne_of_lookup_escapes {char : Char} (hnone : escapes.lookup char = none) :
    char ≠ quote ∧ char ≠ backslash := by
  rw [List.lookup_eq_none_iff] at hnone
  have hquote := hnone (quote, quote) (by decide)
  have hbackslash := hnone (backslash, backslash) (by decide)
  simp only [bne_iff_ne, ne_eq] at hquote hbackslash
  exact ⟨hquote, hbackslash⟩

theorem parseHex_control {code : ℕ} (hcode : code < 0x20) (rest : List Char) :
    parseHex ('0' :: '0' :: (code / 16).digitChar :: (code % 16).digitChar :: rest) =
      some (code, rest) := by
  interval_cases code <;> rfl

/-- An escaped character is read back. -/
theorem parseChar_escapeChar (char : Char) (rest : List Char) :
    parseChar (escapeChar char ++ rest) = some (char, rest) := by
  rw [escapeChar]
  cases hletter : escapes.lookup char with
  | some letter =>
      obtain ⟨hne, hchar⟩ := lookup_escapes_eq_some hletter
      simp [parseChar, hne, hchar]
  | none =>
      obtain ⟨hquote, hbackslash⟩ := ne_of_lookup_escapes hletter
      by_cases hcontrol : char.toNat < 0x20
      · have hunit : char.toNat < 0xd800 := by omega
        simp [hcontrol, parseChar, parseUnicode, parseHex_control hcontrol, hunit]
      · simp [hcontrol, parseChar, hbackslash]

/-- No character is written as a lone quote. -/
theorem escapeChar_eq_cons (char : Char) :
    ∃ first rest, escapeChar char = first :: rest ∧ first ≠ quote := by
  rw [escapeChar]
  cases hletter : escapes.lookup char with
  | some letter => exact ⟨backslash, [letter], rfl, by decide⟩
  | none =>
      obtain ⟨hquote, -⟩ := ne_of_lookup_escapes hletter
      by_cases hcontrol : char.toNat < 0x20
      · exact ⟨backslash, _, if_pos hcontrol, by decide⟩
      · exact ⟨char, [], if_neg hcontrol, hquote⟩

theorem parseBody_flatMap (chars : List Char) {fuel : ℕ} (rest : List Char)
    (hfuel : chars.length < fuel) :
    parseBody fuel (chars.flatMap escapeChar ++ quote :: rest) = some (chars, rest) := by
  induction chars generalizing fuel with
  | nil =>
      obtain ⟨fuel, rfl⟩ := Nat.exists_eq_succ_of_ne_zero (Nat.ne_zero_of_lt hfuel)
      simp [parseBody]
  | cons char chars ih =>
      obtain ⟨fuel, rfl⟩ := Nat.exists_eq_succ_of_ne_zero (Nat.ne_zero_of_lt hfuel)
      have hparsed := parseChar_escapeChar char (chars.flatMap escapeChar ++ quote :: rest)
      obtain ⟨first, more, hescaped, hfirst⟩ := escapeChar_eq_cons char
      rw [hescaped, List.cons_append] at hparsed
      rw [List.flatMap_cons, List.append_assoc, hescaped, List.cons_append, parseBody,
        if_neg hfirst, hparsed]
      simp [ih (Nat.lt_of_succ_lt_succ hfuel)]

/-! ## Numbers -/

def printNumber (floats : Floats) : Number → List Char
  | .posInt value => Nat.toDigits 10 value.toNat
  | .negInt value => '-' :: Nat.toDigits 10 value.toInt.natAbs
  | .float bits => floats.print bits

/-- The characters a number may go on with after its integer part. -/
def isFloatChar (char : Char) : Bool :=
  char.isDigit || char == '.' || char == 'e' || char == 'E' || char == '+' || char == '-'

/-- An integer, or a double when no integer type holds it. -/
def ofInteger (floats : Floats) (negative : Bool) (digits : List Char) : Option Number :=
  let value := Nat.ofDigitChars 10 digits 0
  if negative then
    if value = 0 ∨ 2 ^ 63 < value then (floats.parse ('-' :: digits)).map .float
    else some (.negInt (Int64.ofInt (-value)))
  else if value < 2 ^ 64 then some (.posInt (UInt64.ofNat value))
  else (floats.parse digits).map .float

/-- The number after its sign. -/
def parseUnsigned (floats : Floats) (negative : Bool) (text : List Char) :
    Option (Number × List Char) :=
  let digits := text.takeWhile Char.isDigit
  let rest := text.dropWhile Char.isDigit
  if digits = [] ∨ digits ≠ ['0'] ∧ digits.head? = some '0' then none
  else
    match rest.takeWhile isFloatChar with
    | [] => (ofInteger floats negative digits).map fun number => (number, rest)
    | part => do
        let bits ← floats.parse ((if negative then ['-'] else []) ++ digits ++ part)
        return (.float bits, rest.dropWhile isFloatChar)

def parseNumber (floats : Floats) : List Char → Option (Number × List Char)
  | [] => none
  | char :: rest =>
      if char = '-' then parseUnsigned floats true rest
      else parseUnsigned floats false (char :: rest)

/-- What may follow a value in a printed text. -/
def Ends : List Char → Prop
  | [] => True
  | char :: _ => char = ',' ∨ char = ']' ∨ char = '}'

theorem Ends.dropWhile {rest : List Char} (hrest : Ends rest) {test : Char → Bool}
    (htest : ∀ char ∈ [',', ']', '}'], test char = false) :
    rest.takeWhile test = [] ∧ rest.dropWhile test = rest := by
  cases rest with
  | nil => exact ⟨rfl, rfl⟩
  | cons char rest =>
      have hchar : test char = false := htest char (by simpa [Ends] using hrest)
      simp [hchar]

theorem head?_toDigits_ne_zero {value : ℕ} (hvalue : 0 < value) :
    (Nat.toDigits 10 value).head? ≠ some '0' := by
  induction value using Nat.strongRecOn with
  | ind value ih =>
      by_cases hsmall : value < 10
      · rw [Nat.toDigits_of_lt_base hsmall]
        interval_cases value <;> decide
      · rw [Nat.toDigits_of_base_le (by decide) (by omega),
          List.head?_append_of_ne_nil _ Nat.toDigits_ne_nil]
        exact ih (value / 10) (Nat.div_lt_self hvalue (by decide)) (by omega)

/-- The decimal digits of a number are read back. -/
theorem parseUnsigned_toDigits (floats : Floats) (negative : Bool) (value : ℕ)
    {rest : List Char} (hrest : Ends rest) :
    parseUnsigned floats negative (Nat.toDigits 10 value ++ rest) =
      (ofInteger floats negative (Nat.toDigits 10 value)).map fun number => (number, rest) := by
  have hdigits : ∀ char ∈ Nat.toDigits 10 value, char.isDigit = true :=
    fun char hchar => Nat.isDigit_of_mem_toDigits (by decide) (by decide) hchar
  have hends : ∀ char ∈ [',', ']', '}'], char.isDigit = false ∧ isFloatChar char = false := by
    simp [isFloatChar, Char.isDigit]
  obtain ⟨htake, hdrop⟩ := hrest.dropWhile fun char hchar => (hends char hchar).1
  obtain ⟨hpart, -⟩ := hrest.dropWhile fun char hchar => (hends char hchar).2
  have hvalid : ¬ (Nat.toDigits 10 value = [] ∨ Nat.toDigits 10 value ≠ ['0'] ∧
      (Nat.toDigits 10 value).head? = some '0') := by
    rintro (hempty | ⟨hne, hhead⟩)
    · exact Nat.toDigits_ne_nil hempty
    · cases value with
      | zero => exact hne (Nat.toDigits_zero 10)
      | succ value => exact head?_toDigits_ne_zero (Nat.succ_pos value) hhead
  rw [parseUnsigned, List.takeWhile_append_of_pos hdigits, List.dropWhile_append_of_pos hdigits,
    htake, hdrop, List.append_nil]
  simp only [if_neg hvalid, hpart]

/-- A number that is no double, negative where its form says so. -/
def PlainNumber : Number → Prop
  | .posInt _ => True
  | .negInt value => value.toInt < 0
  | .float _ => False

theorem toDigits_head (value : ℕ) :
    ∃ first rest, Nat.toDigits 10 value = first :: rest ∧ first.isDigit = true := by
  cases hdigits : Nat.toDigits 10 value with
  | nil => exact absurd hdigits Nat.toDigits_ne_nil
  | cons first rest =>
      refine ⟨first, rest, rfl, Nat.isDigit_of_mem_toDigits (show 0 < 10 by decide)
        (by decide) (?_ : first ∈ Nat.toDigits 10 value)⟩
      rw [hdigits]
      exact List.mem_cons_self

theorem parseNumber_printNumber (floats : Floats) {number : Number} (hplain : PlainNumber number)
    {rest : List Char} (hrest : Ends rest) :
    parseNumber floats (printNumber floats number ++ rest) = some (number, rest) := by
  cases number with
  | posInt value =>
      obtain ⟨first, more, hdigits, hfirst⟩ := toDigits_head value.toNat
      have hne : first ≠ '-' := by
        rintro rfl
        contradiction
      have hparsed := parseUnsigned_toDigits floats false value.toNat hrest
      rw [hdigits, List.cons_append, ← hdigits] at hparsed
      rw [printNumber, hdigits, List.cons_append, parseNumber, if_neg hne, hparsed, ofInteger,
        Nat.ofDigitChars_ten_toDigits]
      simp [value.toNat_lt]
  | negInt value =>
      have hnegative : value.toInt < 0 := hplain
      have hlow : -2 ^ 63 ≤ value.toInt := value.le_toInt
      have hvalue : ¬ (value.toInt.natAbs = 0 ∨ 2 ^ 63 < value.toInt.natAbs) := by omega
      have habs : -(value.toInt.natAbs : ℤ) = value.toInt := by omega
      rw [printNumber, List.cons_append, parseNumber, if_pos rfl,
        parseUnsigned_toDigits floats true _ hrest, ofInteger, Nat.ofDigitChars_ten_toDigits]
      simp only [if_true, if_neg hvalue, habs, Int64.ofInt_toInt, Option.map_some]
  | float bits => exact hplain.elim

/-! ## Documents -/

section Document

variable (floats : Floats)

mutual

/-- The compact text of a document. -/
def print : Json → List Char
  | .null => "null".toList
  | .bool true => "true".toList
  | .bool false => "false".toList
  | .number value => printNumber floats value
  | .string text => printString text
  | .array items => '[' :: (printItems items ++ [']'])
  | .object members => '{' :: (printMembers members ++ ['}'])

def printItems : List Json → List Char
  | [] => []
  | item :: items => print item ++ if items.isEmpty then [] else ',' :: printItems items

def printMembers : List (String × Json) → List Char
  | [] => []
  | (key, value) :: members =>
      printString key ++ ':' :: print value ++
        if members.isEmpty then [] else ',' :: printMembers members

end

def isSpace (char : Char) : Bool :=
  char == ' ' || char == '\n' || char == '\r' || char == '\t'

/-- Skip spaces and one given character. -/
def expect (wanted : Char) (text : List Char) : Option (List Char) :=
  match text.dropWhile isSpace with
  | [] => none
  | char :: rest => if char = wanted then some rest else none

def parseString (text : List Char) : Option (String × List Char) :=
  (parseBody (text.length + 1) text).map fun (chars, rest) => (String.ofList chars, rest)

def parseLiteral (word : List Char) (value : Json) (text : List Char) :
    Option (Json × List Char) :=
  if word <+: text then some (value, text.drop word.length) else none

mutual

def parseValue : ℕ → List Char → Option (Json × List Char)
  | 0, _ => none
  | fuel + 1, text =>
      match text.dropWhile isSpace with
      | [] => none
      | char :: rest =>
          if char = 'n' then parseLiteral "ull".toList .null rest
          else if char = 't' then parseLiteral "rue".toList (.bool true) rest
          else if char = 'f' then parseLiteral "alse".toList (.bool false) rest
          else if char = quote then
            (parseString rest).map fun (text, rest) => (.string text, rest)
          else if char = '[' then
            match expect ']' rest with
            | some rest => some (.array [], rest)
            | none => (parseItems fuel rest).map fun (items, rest) => (.array items, rest)
          else if char = '{' then
            match expect '}' rest with
            | some rest => some (.object [], rest)
            | none =>
                (parseMembers fuel rest).map fun (members, rest) => (.object members, rest)
          else
            (parseNumber floats (char :: rest)).map fun (value, rest) => (.number value, rest)

/-- The items of an array, up to its end. -/
def parseItems : ℕ → List Char → Option (List Json × List Char)
  | 0, _ => none
  | fuel + 1, text => do
      let (item, rest) ← parseValue fuel text
      match expect ']' rest with
      | some rest => return ([item], rest)
      | none => do
          let rest ← expect ',' rest
          let (items, rest) ← parseItems fuel rest
          return (item :: items, rest)

/-- The members of an object, up to its end. -/
def parseMembers : ℕ → List Char → Option (List (String × Json) × List Char)
  | 0, _ => none
  | fuel + 1, text => do
      let rest ← expect quote text
      let (key, rest) ← parseString rest
      let rest ← expect ':' rest
      let (value, rest) ← parseValue fuel rest
      match expect '}' rest with
      | some rest => return ([(key, value)], rest)
      | none => do
          let rest ← expect ',' rest
          let (members, rest) ← parseMembers fuel rest
          return ((key, value) :: members, rest)

end

/-- The document a text holds, with nothing but spaces after it. -/
def parse (text : List Char) : Option Json := do
  let (json, rest) ← parseValue floats (2 * text.length + 1) text
  if rest.dropWhile isSpace = [] then return json else none

end Document

mutual

/-- A document without doubles. -/
def Plain : Json → Prop
  | .null | .bool _ | .string _ => True
  | .number value => PlainNumber value
  | .array items => PlainItems items
  | .object members => PlainMembers members

def PlainItems : List Json → Prop
  | [] => True
  | item :: items => item.Plain ∧ PlainItems items

def PlainMembers : List (String × Json) → Prop
  | [] => True
  | (_, value) :: members => value.Plain ∧ PlainMembers members

end

/-! ## Parsing what was printed -/

section RoundTrip

variable {floats : Floats}

theorem expect_cons_self {wanted : Char} (hwanted : isSpace wanted = false)
    (rest : List Char) : expect wanted (wanted :: rest) = some rest := by
  simp [expect, hwanted]

theorem expect_cons_of_ne {wanted char : Char} (hchar : isSpace char = false)
    (hne : char ≠ wanted) (rest : List Char) : expect wanted (char :: rest) = none := by
  simp [expect, hchar, hne]

theorem parseString_printString (text : String) (rest : List Char) :
    parseString (text.toList.flatMap escapeChar ++ quote :: rest) = some (text, rest) := by
  have hlength : text.toList.length <
      (text.toList.flatMap escapeChar ++ quote :: rest).length + 1 := by
    have hescaped : text.toList.length ≤ (text.toList.flatMap escapeChar).length := by
      rw [List.length_flatMap]
      have hone : ∀ char ∈ text.toList, 1 ≤ (escapeChar char).length := by
        intro char _
        obtain ⟨first, more, hescaped, -⟩ := escapeChar_eq_cons char
        simp [hescaped]
      simpa using List.card_nsmul_le_sum (text.toList.map fun char => (escapeChar char).length)
        1 (by simpa using hone)
    rw [List.length_append]
    omega
  rw [parseString, parseBody_flatMap text.toList rest hlength]
  simp

/-- A digit or a sign, as numbers start. -/
def StartsNumber (char : Char) : Prop :=
  char.isDigit = true ∨ char = '-'

theorem StartsNumber.ne {first : Char} (hfirst : StartsNumber first) (char : Char)
    (hchar : char.isDigit = false ∧ char ≠ '-') : first ≠ char := by
  rintro rfl
  rcases hfirst with hdigit | hminus
  · rw [hchar.1] at hdigit
    contradiction
  · exact hchar.2 hminus

theorem StartsNumber.isSpace_eq_false {first : Char} (hfirst : StartsNumber first) :
    isSpace first = false := by
  simp [isSpace, hfirst.ne ' ' (by decide), hfirst.ne '\n' (by decide),
    hfirst.ne '\r' (by decide), hfirst.ne '\t' (by decide)]

theorem printNumber_eq_cons (floats : Floats) {number : Number} (hplain : PlainNumber number) :
    ∃ first rest, printNumber floats number = first :: rest ∧ StartsNumber first := by
  cases number with
  | posInt value =>
      obtain ⟨first, rest, hdigits, hfirst⟩ := toDigits_head value.toNat
      exact ⟨first, rest, hdigits, .inl hfirst⟩
  | negInt value => exact ⟨'-', _, rfl, .inr rfl⟩
  | float bits => exact hplain.elim

/-- The first character of a printed document. -/
theorem print_eq_cons (floats : Floats) {json : Json} (hplain : json.Plain) :
    ∃ first rest, json.print floats = first :: rest ∧ isSpace first = false ∧ first ≠ ']' := by
  cases json with
  | null => exact ⟨'n', _, rfl, rfl, by decide⟩
  | bool value => cases value <;> exact ⟨_, _, rfl, rfl, by decide⟩
  | number value =>
      rw [Plain] at hplain
      obtain ⟨first, rest, htext, hfirst⟩ := printNumber_eq_cons floats hplain
      exact ⟨first, rest, by rw [print, htext], hfirst.isSpace_eq_false, hfirst.ne ']' (by decide)⟩
  | string text => exact ⟨quote, _, by rw [print, printString], rfl, by decide⟩
  | array items => exact ⟨'[', _, by rw [print], rfl, by decide⟩
  | object members => exact ⟨'{', _, by rw [print], rfl, by decide⟩

theorem parseValue_number {first : Char} (hfirst : StartsNumber first) (fuel : ℕ)
    (rest : List Char) :
    parseValue floats (fuel + 1) (first :: rest) =
      (parseNumber floats (first :: rest)).map fun (value, rest) => (.number value, rest) := by
  rw [parseValue, List.dropWhile_cons_of_neg (by simp [hfirst.isSpace_eq_false])]
  simp only [if_neg (hfirst.ne 'n' (by decide)), if_neg (hfirst.ne 't' (by decide)),
    if_neg (hfirst.ne 'f' (by decide)), if_neg (hfirst.ne quote (by decide)),
    if_neg (hfirst.ne '[' (by decide)), if_neg (hfirst.ne '{' (by decide))]

theorem parseValue_string (fuel : ℕ) (rest : List Char) :
    parseValue floats (fuel + 1) (quote :: rest) =
      (parseString rest).map fun (text, rest) => (.string text, rest) := by
  simp [parseValue, isSpace, quote]

theorem parseValue_array (fuel : ℕ) {rest : List Char} (hrest : expect ']' rest = none) :
    parseValue floats (fuel + 1) ('[' :: rest) =
      (parseItems floats fuel rest).map fun (items, rest) => (.array items, rest) := by
  simp [parseValue, isSpace, quote, hrest]

theorem parseValue_object (fuel : ℕ) {rest : List Char} (hrest : expect '}' rest = none) :
    parseValue floats (fuel + 1) ('{' :: rest) =
      (parseMembers floats fuel rest).map fun (members, rest) => (.object members, rest) := by
  simp [parseValue, isSpace, quote, hrest]

/-- A printed key and the colon are read back. -/
theorem parseMembers_key (fuel : ℕ) (key : String) (text : List Char) :
    parseMembers floats (fuel + 1) (printString key ++ ':' :: text) =
      (parseValue floats fuel text).bind fun (value, rest) =>
        match expect '}' rest with
        | some rest => some ([(key, value)], rest)
        | none => (expect ',' rest).bind fun rest =>
            (parseMembers floats fuel rest).bind fun (members, rest) =>
              some ((key, value) :: members, rest) := by
  have hquote : isSpace quote = false := by decide
  have hcolon : isSpace ':' = false := by decide
  rw [printString, List.cons_append, List.append_assoc, List.singleton_append, parseMembers,
    expect_cons_self hquote, Option.bind_eq_bind, Option.bind_some, parseString_printString,
    Option.bind_eq_bind, Option.bind_some]
  simp only [expect_cons_self hcolon]
  rfl

/-- What follows an item: the end, or a comma and the others. -/
theorem printItems_cons (floats : Floats) (item next : Json) (items : List Json) :
    printItems floats (item :: next :: items) =
      item.print floats ++ ',' :: printItems floats (next :: items) := by
  rw [printItems]
  rfl

theorem printMembers_cons (floats : Floats) (key : String) (value : Json)
    (next : String × Json) (members : List (String × Json)) :
    printMembers floats ((key, value) :: next :: members) =
      printString key ++ ':' :: value.print floats ++
        ',' :: printMembers floats (next :: members) := by
  rw [printMembers]
  rfl

mutual

/-- A printed document is read back, whatever follows it. -/
theorem parseValue_print : (json : Json) → json.Plain → (rest : List Char) → Ends rest →
    (fuel : ℕ) → 2 * (json.print floats).length < fuel →
      parseValue floats fuel (json.print floats ++ rest) = some (json, rest)
  | json, hplain, rest, hrest, 0, hfuel => by omega
  | .null, _, rest, _, fuel + 1, _ => by
      simp [print, parseValue, parseLiteral, isSpace]
  | .bool true, _, rest, _, fuel + 1, _ => by
      simp [print, parseValue, parseLiteral, isSpace]
  | .bool false, _, rest, _, fuel + 1, _ => by
      simp [print, parseValue, parseLiteral, isSpace]
  | .number value, hplain, rest, hrest, fuel + 1, _ => by
      rw [Plain] at hplain
      have hparsed := parseNumber_printNumber floats hplain hrest
      obtain ⟨first, more, htext, hfirst⟩ := printNumber_eq_cons floats hplain
      rw [htext, List.cons_append] at hparsed
      rw [print, htext, List.cons_append, parseValue_number hfirst, hparsed, Option.map_some]
  | .string text, _, rest, _, fuel + 1, _ => by
      rw [print, printString, List.cons_append, List.append_assoc, List.singleton_append,
        parseValue_string, parseString_printString, Option.map_some]
  | .array [], _, rest, _, fuel + 1, _ => by
      simp [print, printItems, parseValue, isSpace, quote, expect]
  | .array (item :: items), hplain, rest, hrest, fuel + 1, hfuel => by
      rw [Plain, PlainItems] at hplain
      rw [print, List.length_cons, List.length_append, List.length_singleton] at hfuel
      have hparsed := parseItems_print item items hplain.1 hplain.2 rest fuel (by omega)
      have hopen : expect ']' (printItems floats (item :: items) ++ ']' :: rest) = none := by
        obtain ⟨first, more, htext, hspace, hne⟩ := print_eq_cons floats hplain.1
        rw [printItems, htext, List.cons_append, List.cons_append]
        exact expect_cons_of_ne hspace hne _
      rw [print, List.cons_append, List.append_assoc, List.singleton_append,
        parseValue_array fuel hopen, hparsed, Option.map_some]
  | .object [], _, rest, _, fuel + 1, _ => by
      simp [print, printMembers, parseValue, isSpace, quote, expect]
  | .object ((key, value) :: members), hplain, rest, hrest, fuel + 1, hfuel => by
      rw [Plain, PlainMembers] at hplain
      rw [print, List.length_cons, List.length_append, List.length_singleton] at hfuel
      have hparsed := parseMembers_print key value members hplain.1 hplain.2 rest fuel (by omega)
      have hopen : expect '}' (printMembers floats ((key, value) :: members) ++ '}' :: rest) =
          none := by
        rw [printMembers, printString, List.cons_append, List.cons_append, List.cons_append]
        exact expect_cons_of_ne (by decide) (by decide) _
      rw [print, List.cons_append, List.append_assoc, List.singleton_append,
        parseValue_object fuel hopen, hparsed, Option.map_some]

theorem parseItems_print : (item : Json) → (items : List Json) → item.Plain →
    PlainItems items → (rest : List Char) → (fuel : ℕ) →
      2 * (printItems floats (item :: items)).length + 1 < fuel →
        parseItems floats fuel (printItems floats (item :: items) ++ ']' :: rest) =
          some (item :: items, rest)
  | item, items, hitem, hplain, rest, 0, hfuel => by omega
  | item, [], hitem, _, rest, fuel + 1, hfuel => by
      have htext : printItems floats [item] = item.print floats := by
        rw [printItems]
        simp
      rw [htext] at hfuel ⊢
      have hparsed := parseValue_print item hitem (']' :: rest) (.inr (.inl rfl)) fuel (by omega)
      rw [parseItems, hparsed]
      simp [expect_cons_self (show isSpace ']' = false by decide)]
  | item, next :: items, hitem, hplain, rest, fuel + 1, hfuel => by
      rw [printItems_cons] at hfuel ⊢
      rw [List.length_append, List.length_cons] at hfuel
      rw [PlainItems] at hplain
      have hparsed := parseValue_print item hitem
        (',' :: printItems floats (next :: items) ++ ']' :: rest) (.inl rfl) fuel (by omega)
      have hlater := parseItems_print next items hplain.1 hplain.2 rest fuel (by omega)
      rw [List.append_assoc, parseItems, hparsed]
      simp [expect_cons_of_ne (show isSpace ',' = false by decide) (show ',' ≠ ']' by decide),
        expect_cons_self (show isSpace ',' = false by decide), hlater]

theorem parseMembers_print : (key : String) → (value : Json) →
    (members : List (String × Json)) → value.Plain → PlainMembers members →
      (rest : List Char) → (fuel : ℕ) →
        2 * (printMembers floats ((key, value) :: members)).length + 1 < fuel →
          parseMembers floats fuel (printMembers floats ((key, value) :: members) ++ '}' :: rest) =
            some ((key, value) :: members, rest)
  | key, value, members, hvalue, hplain, rest, 0, hfuel => by omega
  | key, value, [], hvalue, _, rest, fuel + 1, hfuel => by
      have htext : printMembers floats [(key, value)] =
          printString key ++ ':' :: value.print floats := by
        rw [printMembers]
        simp
      rw [htext] at hfuel ⊢
      rw [List.length_append, List.length_cons] at hfuel
      have hparsed := parseValue_print value hvalue ('}' :: rest) (.inr (.inr rfl)) fuel
        (by omega)
      rw [List.append_assoc, List.cons_append, parseMembers_key, hparsed, Option.bind_some]
      simp [expect_cons_self (show isSpace '}' = false by decide)]
  | key, value, (next, later) :: members, hvalue, hplain, rest, fuel + 1, hfuel => by
      rw [printMembers_cons] at hfuel ⊢
      rw [List.length_append, List.length_append, List.length_cons, List.length_cons] at hfuel
      rw [PlainMembers] at hplain
      have hparsed := parseValue_print value hvalue
        (',' :: printMembers floats ((next, later) :: members) ++ '}' :: rest) (.inl rfl) fuel
        (by omega)
      have hlater := parseMembers_print next later members hplain.1 hplain.2 rest fuel (by omega)
      rw [List.append_assoc, List.append_assoc, List.cons_append, parseMembers_key, hparsed,
        Option.bind_some]
      simp [expect_cons_of_ne (show isSpace ',' = false by decide) (show ',' ≠ '}' by decide),
        expect_cons_self (show isSpace ',' = false by decide), hlater]

end

/-- The text of a document without doubles parses to it. -/
theorem parse_print (floats : Floats) {json : Json} (hplain : json.Plain) :
    parse floats (json.print floats) = some json := by
  have hparsed := parseValue_print json hplain [] trivial
    (2 * (json.print floats).length + 1) (Nat.lt_succ_self _)
  rw [List.append_nil] at hparsed
  rw [parse, hparsed, Option.bind_eq_bind, Option.bind_some]
  exact if_pos List.dropWhile_nil

end RoundTrip

/-! ## One line -/

section Line

variable {floats : Floats}

/-- No control character, so no line break. -/
def Printable (text : List Char) : Prop :=
  ∀ char ∈ text, 0x20 ≤ char.toNat

theorem Printable.nil : Printable [] :=
  List.forall_mem_nil _

theorem Printable.append {left right : List Char} (hleft : Printable left)
    (hright : Printable right) : Printable (left ++ right) :=
  List.forall_mem_append.mpr ⟨hleft, hright⟩

theorem Printable.cons {first : Char} {rest : List Char} (hfirst : 0x20 ≤ first.toNat)
    (hrest : Printable rest) : Printable (first :: rest) :=
  List.forall_mem_cons.mpr ⟨hfirst, hrest⟩

theorem printable_escapeChar (char : Char) : Printable (escapeChar char) := by
  rw [escapeChar]
  cases hletter : escapes.lookup char with
  | some letter =>
      have hmem : (char, letter) ∈ escapes := by
        obtain ⟨before, after, hentries, -⟩ := List.lookup_eq_some_iff.mp hletter
        rw [hentries]
        simp
      have hletters : ∀ entry ∈ escapes, 0x20 ≤ entry.2.toNat := by decide
      exact .cons (by decide) (.cons (hletters _ hmem) .nil)
  | none =>
      by_cases hcontrol : char.toNat < 0x20
      · have hdigits : ∀ digit < 16, 0x20 ≤ (Nat.digitChar digit).toNat := by decide
        simp only [if_pos hcontrol]
        refine .cons (by decide) (.cons (by decide) (.cons (by decide) (.cons (by decide) ?_)))
        exact .cons (hdigits _ (by omega)) (.cons (hdigits _ (by omega)) .nil)
      · simp only [if_neg hcontrol]
        exact .cons (not_lt.mp hcontrol) .nil

theorem printable_printString (text : String) : Printable (printString text) := by
  refine .cons (by decide) (.append ?_ (.cons (by decide) .nil))
  intro char hchar
  obtain ⟨source, -, hescaped⟩ := List.mem_flatMap.mp hchar
  exact printable_escapeChar source char hescaped

theorem printable_toDigits (value : ℕ) : Printable (Nat.toDigits 10 value) := by
  intro char hchar
  have hdigit : char.isDigit = true := Nat.isDigit_of_mem_toDigits (by decide) (by decide) hchar
  rw [Char.isDigit, Bool.and_eq_true, decide_eq_true_eq] at hdigit
  have hlow : 48 ≤ char.toNat := hdigit.1
  omega

theorem printable_printNumber {number : Number} (hplain : PlainNumber number) :
    Printable (printNumber floats number) := by
  cases number with
  | posInt value => exact printable_toDigits value.toNat
  | negInt value => exact .cons (by decide) (printable_toDigits value.toInt.natAbs)
  | float bits => exact hplain.elim

mutual

theorem printable_print : (json : Json) → json.Plain → Printable (json.print floats)
  | .null, _ => by simp [print, Printable]
  | .bool true, _ => by simp [print, Printable]
  | .bool false, _ => by simp [print, Printable]
  | .number value, hplain => by
      rw [print]
      exact printable_printNumber (by simpa [Plain] using hplain)
  | .string text, _ => by
      rw [print]
      exact printable_printString text
  | .array items, hplain => by
      rw [print]
      refine .cons (by decide) (.append ?_ (.cons (by decide) .nil))
      exact printable_printItems items (by simpa [Plain] using hplain)
  | .object members, hplain => by
      rw [print]
      refine .cons (by decide) (.append ?_ (.cons (by decide) .nil))
      exact printable_printMembers members (by simpa [Plain] using hplain)

theorem printable_printItems : (items : List Json) → PlainItems items →
    Printable (printItems floats items)
  | [], _ => by
      rw [printItems]
      exact .nil
  | item :: items, hplain => by
      rw [PlainItems] at hplain
      rw [printItems]
      refine .append (printable_print item hplain.1) ?_
      split
      · exact .nil
      · exact .cons (by decide) (printable_printItems items hplain.2)

theorem printable_printMembers : (members : List (String × Json)) → PlainMembers members →
    Printable (printMembers floats members)
  | [], _ => by
      rw [printMembers]
      exact .nil
  | (key, value) :: members, hplain => by
      rw [PlainMembers] at hplain
      rw [printMembers]
      refine .append (.append (printable_printString key)
        (.cons (by decide) (printable_print value hplain.1))) ?_
      split
      · exact .nil
      · exact .cons (by decide) (printable_printMembers members hplain.2)

end

end Line

end RadicleArtifact.Library.Json
