import RadicleArtifact.Library.Lines
import RadicleArtifact.Library.Wire

/-!
# Truncated documents

An object or array ends with the bracket that closes it, so the parser that has found that
bracket reads no further: what it read is read the same whatever follows.  No proper part of
the text of an object parses, and the same holds of its line, cut off at any byte.
-/

namespace RadicleArtifact.Library

namespace Json

/-! ## Reading on -/

theorem takeWhile_append_of_dropWhile_ne_nil {test : Char → Bool} {text : List Char}
    (hrest : text.dropWhile test ≠ []) (later : List Char) :
    (text ++ later).takeWhile test = text.takeWhile test ∧
      (text ++ later).dropWhile test = text.dropWhile test ++ later := by
  induction text with
  | nil => exact absurd rfl hrest
  | cons char text ih =>
      by_cases hchar : test char = true
      · rw [List.dropWhile_cons_of_pos hchar] at hrest ⊢
        obtain ⟨htake, hdrop⟩ := ih hrest
        rw [List.cons_append, List.takeWhile_cons_of_pos hchar, List.takeWhile_cons_of_pos hchar,
          List.dropWhile_cons_of_pos hchar, htake, hdrop]
        exact ⟨rfl, rfl⟩
      · rw [List.cons_append, List.takeWhile_cons_of_neg hchar, List.takeWhile_cons_of_neg hchar,
          List.dropWhile_cons_of_neg hchar, List.dropWhile_cons_of_neg hchar]
        exact ⟨rfl, rfl⟩

section Reading

variable {text rest : List Char}

theorem dropWhile_ne_nil_of_expect {wanted : Char} (hexpect : expect wanted text = some rest) :
    text.dropWhile isSpace ≠ [] := by
  intro hnil
  rw [expect, hnil] at hexpect
  contradiction

theorem ne_nil_of_expect {wanted : Char} (hexpect : expect wanted text = some rest) :
    text ≠ [] := by
  rintro rfl
  contradiction

theorem expect_append {wanted : Char} (hnext : text.dropWhile isSpace ≠ []) (later : List Char) :
    expect wanted (text ++ later) = (expect wanted text).map (· ++ later) := by
  rw [expect, expect, (takeWhile_append_of_dropWhile_ne_nil hnext later).2]
  cases hdrop : text.dropWhile isSpace with
  | nil => exact absurd hdrop hnext
  | cons char rest =>
      rw [List.cons_append]
      dsimp only
      split <;> rfl

theorem parseHex_append {unit : ℕ} (hparse : parseHex text = some (unit, rest))
    (later : List Char) : parseHex (text ++ later) = some (unit, rest ++ later) := by
  rcases text with _ | ⟨first, _ | ⟨second, _ | ⟨third, _ | ⟨fourth, text⟩⟩⟩⟩ <;>
    try contradiction
  simp only [parseHex, Option.bind_eq_bind, Option.bind_eq_some_iff, Option.pure_def,
    Option.some.injEq, Prod.mk.injEq] at hparse
  obtain ⟨a, ha, b, hb, c, hc, d, hd, hunit, rfl⟩ := hparse
  simp only [List.cons_append, parseHex, ha, hb, hc, hd, hunit, Option.bind_eq_bind,
    Option.bind_some, Option.pure_def]

theorem parseUnicode_append {char : Char} (hparse : parseUnicode text = some (char, rest))
    (later : List Char) : parseUnicode (text ++ later) = some (char, rest ++ later) := by
  rw [parseUnicode, Option.bind_eq_bind, Option.bind_eq_some_iff] at hparse
  obtain ⟨⟨unit, after⟩, hunit, hparse⟩ := hparse
  rw [parseUnicode, parseHex_append hunit later, Option.bind_eq_bind, Option.bind_some]
  dsimp only at hparse ⊢
  split at hparse
  · rename_i hsingle
    obtain ⟨rfl, rfl⟩ := Prod.mk.inj (Option.some.inj hparse)
    exact if_pos hsingle
  · rename_i hsurrogate
    rw [if_neg hsurrogate]
    split at hparse
    · contradiction
    · rename_i hhigh
      rw [if_neg hhigh]
      rcases after with _ | ⟨slash, _ | ⟨letter, after⟩⟩ <;> try contradiction
      rw [List.cons_append, List.cons_append]
      dsimp only at hparse ⊢
      split at hparse
      · rename_i hescape
        rw [if_pos hescape]
        rw [Option.bind_eq_some_iff] at hparse
        obtain ⟨⟨low, tail⟩, hlow, hparse⟩ := hparse
        rw [parseHex_append hlow later, Option.bind_some]
        dsimp only at hparse ⊢
        split at hparse
        · rename_i hpair
          obtain ⟨rfl, rfl⟩ := Prod.mk.inj (Option.some.inj hparse)
          exact if_pos hpair
        · contradiction
      · contradiction

theorem parseChar_append {char : Char} (hparse : parseChar text = some (char, rest))
    (later : List Char) : parseChar (text ++ later) = some (char, rest ++ later) := by
  cases text with
  | nil => contradiction
  | cons first text =>
      rw [List.cons_append, parseChar.eq_def]
      rw [parseChar.eq_def] at hparse
      dsimp only at hparse ⊢
      split at hparse
      · rename_i hescape
        rw [if_pos hescape]
        cases text with
        | nil => contradiction
        | cons letter text =>
            rw [List.cons_append]
            dsimp only at hparse ⊢
            split at hparse
            · rename_i hunicode
              rw [if_pos hunicode]
              exact parseUnicode_append hparse later
            · rename_i hletter
              rw [if_neg hletter]
              obtain ⟨found, hfound, heq⟩ := Option.map_eq_some_iff.mp hparse
              obtain ⟨rfl, rfl⟩ := Prod.mk.inj heq
              rw [hfound, Option.map_some]
      · rename_i hescape
        rw [if_neg hescape]
        split at hparse
        · contradiction
        · rename_i hcontrol
          obtain ⟨rfl, rfl⟩ := Prod.mk.inj (Option.some.inj hparse)
          exact if_neg hcontrol

theorem parseBody_append {fuel more : ℕ} {chars : List Char} (hfuel : fuel ≤ more)
    (hparse : parseBody fuel text = some (chars, rest)) (later : List Char) :
    parseBody more (text ++ later) = some (chars, rest ++ later) := by
  induction fuel generalizing more text chars with
  | zero => contradiction
  | succ fuel ih =>
      obtain ⟨more, rfl⟩ := Nat.exists_eq_succ_of_ne_zero (Nat.ne_zero_of_lt hfuel)
      cases text with
      | nil => contradiction
      | cons char text =>
          rw [parseBody] at hparse
          rw [List.cons_append, parseBody]
          dsimp only at hparse ⊢
          split at hparse
          · rename_i hclose
            obtain ⟨rfl, rfl⟩ := Prod.mk.inj (Option.some.inj hparse)
            exact if_pos hclose
          · rename_i hopen
            rw [if_neg hopen]
            rw [Option.bind_eq_bind, Option.bind_eq_some_iff] at hparse
            obtain ⟨⟨first, after⟩, hfirst, hparse⟩ := hparse
            rw [Option.bind_eq_bind, Option.bind_eq_some_iff] at hparse
            obtain ⟨⟨found, tail⟩, hfound, heq⟩ := hparse
            obtain ⟨rfl, rfl⟩ := Prod.mk.inj (Option.some.inj heq)
            have hchar := parseChar_append hfirst later
            rw [List.cons_append] at hchar
            rw [hchar, Option.bind_eq_bind, Option.bind_some,
              ih (Nat.le_of_succ_le_succ hfuel) hfound]
            rfl

theorem parseString_append {found : String} (hparse : parseString text = some (found, rest))
    (later : List Char) : parseString (text ++ later) = some (found, rest ++ later) := by
  obtain ⟨⟨chars, after⟩, hchars, heq⟩ := Option.map_eq_some_iff.mp hparse
  obtain ⟨rfl, rfl⟩ := Prod.mk.inj heq
  have hlength : text.length + 1 ≤ (text ++ later).length + 1 := by
    rw [List.length_append]
    omega
  rw [parseString, parseBody_append hlength hchars later]
  rfl

theorem parseLiteral_append {word : List Char} {value json : Json}
    (hparse : parseLiteral word value text = some (json, rest)) (later : List Char) :
    parseLiteral word value (text ++ later) = some (json, rest ++ later) := by
  rw [parseLiteral] at hparse ⊢
  split at hparse
  · rename_i hword
    obtain ⟨rfl, rfl⟩ := Prod.mk.inj (Option.some.inj hparse)
    rw [if_pos (hword.trans (List.prefix_append text later)),
      List.drop_append_of_le_length hword.length_le]
  · contradiction

/-- A number ends where another character stands. -/
theorem parseUnsigned_append {floats : Floats} {negative : Bool} {number : Number}
    (hparse : parseUnsigned floats negative text = some (number, rest)) (hrest : rest ≠ [])
    (later : List Char) :
    parseUnsigned floats negative (text ++ later) = some (number, rest ++ later) := by
  rw [parseUnsigned] at hparse
  split at hparse
  · contradiction
  · rename_i hdigits
    have hafter : text.dropWhile Char.isDigit ≠ [] := by
      intro hnil
      rw [hnil] at hparse
      obtain ⟨found, -, heq⟩ := Option.map_eq_some_iff.mp hparse
      exact hrest (Prod.mk.inj heq).2.symm
    obtain ⟨htake, hdrop⟩ := takeWhile_append_of_dropWhile_ne_nil hafter later
    rw [parseUnsigned]
    simp only [htake, hdrop, if_neg hdigits]
    split at hparse
    · rename_i hpart
      obtain ⟨found, hfound, heq⟩ := Option.map_eq_some_iff.mp hparse
      obtain ⟨rfl, rfl⟩ := Prod.mk.inj heq
      have hstop : (text.dropWhile Char.isDigit).dropWhile isFloatChar ≠ [] := by
        rw [List.dropWhile_eq_self_iff.mpr fun hpos => ?_]
        · exact hafter
        · have hhead := List.takeWhile_eq_nil_iff.mp hpart
          exact fun htrue => absurd htrue (hhead hpos)
      rw [(takeWhile_append_of_dropWhile_ne_nil hstop later).1, hpart, hfound]
      rfl
    · rename_i hpart
      rw [Option.bind_eq_bind, Option.bind_eq_some_iff] at hparse
      obtain ⟨bits, hbits, heq⟩ := hparse
      obtain ⟨rfl, rfl⟩ := Prod.mk.inj (Option.some.inj heq)
      obtain ⟨hfront, htail⟩ := takeWhile_append_of_dropWhile_ne_nil hrest later
      rw [hfront, htail]
      split
      · rename_i hnil
        exact absurd hnil hpart
      · rw [hbits]
        rfl

theorem parseNumber_append {floats : Floats} {number : Number}
    (hparse : parseNumber floats text = some (number, rest)) (hrest : rest ≠ [])
    (later : List Char) :
    parseNumber floats (text ++ later) = some (number, rest ++ later) := by
  cases text with
  | nil => contradiction
  | cons char text =>
      rw [List.cons_append]
      rw [parseNumber] at hparse ⊢
      split at hparse
      · rename_i hminus
        rw [if_pos hminus]
        exact parseUnsigned_append hparse hrest later
      · rename_i hminus
        rw [if_neg hminus, ← List.cons_append]
        exact parseUnsigned_append hparse hrest later

end Reading

/-! ## Values -/

section Values

variable {floats : Floats} {fuel : ℕ} {text rest : List Char}

theorem dropWhile_ne_nil_of_parseValue {json : Json}
    (hparse : parseValue floats fuel text = some (json, rest)) :
    text.dropWhile isSpace ≠ [] := by
  intro hnil
  cases fuel with
  | zero =>
      rw [parseValue] at hparse
      contradiction
  | succ fuel =>
      rw [parseValue, hnil] at hparse
      contradiction

theorem dropWhile_ne_nil_of_parseItems {items : List Json}
    (hparse : parseItems floats fuel text = some (items, rest)) :
    text.dropWhile isSpace ≠ [] := by
  cases fuel with
  | zero =>
      rw [parseItems] at hparse
      contradiction
  | succ fuel =>
      rw [parseItems, Option.bind_eq_bind, Option.bind_eq_some_iff] at hparse
      obtain ⟨_, hvalue, -⟩ := hparse
      exact dropWhile_ne_nil_of_parseValue hvalue

theorem dropWhile_ne_nil_of_parseMembers {members : List (String × Json)}
    (hparse : parseMembers floats fuel text = some (members, rest)) :
    text.dropWhile isSpace ≠ [] := by
  cases fuel with
  | zero =>
      rw [parseMembers] at hparse
      contradiction
  | succ fuel =>
      rw [parseMembers, Option.bind_eq_bind, Option.bind_eq_some_iff] at hparse
      obtain ⟨_, hquote, -⟩ := hparse
      exact dropWhile_ne_nil_of_expect hquote

end Values

/-- Not a number, which the next character may belong to. -/
def Closed : Json → Prop
  | .number _ => False
  | _ => True

section ReadsOn

variable {floats : Floats}

/-- What the parser read with some fuel, it reads with more when text is added. -/
structure ReadsOn (floats : Floats) (fuel : ℕ) : Prop where
  value : ∀ text json rest, parseValue floats fuel text = some (json, rest) →
    (rest ≠ [] ∨ json.Closed) → ∀ more, fuel ≤ more → ∀ later,
      parseValue floats more (text ++ later) = some (json, rest ++ later)
  items : ∀ text items rest, parseItems floats fuel text = some (items, rest) →
    ∀ more, fuel ≤ more → ∀ later,
      parseItems floats more (text ++ later) = some (items, rest ++ later)
  members : ∀ text members rest, parseMembers floats fuel text = some (members, rest) →
    ∀ more, fuel ≤ more → ∀ later,
      parseMembers floats more (text ++ later) = some (members, rest ++ later)

theorem ReadsOn.readValue {fuel : ℕ} (hreads : ReadsOn floats fuel) {text rest : List Char}
    {json : Json} (hparse : parseValue floats (fuel + 1) text = some (json, rest))
    (hends : rest ≠ [] ∨ json.Closed) {more : ℕ} (hmore : fuel ≤ more) (later : List Char) :
    parseValue floats (more + 1) (text ++ later) = some (json, rest ++ later) := by
  rw [parseValue] at hparse ⊢
  cases hdrop : text.dropWhile isSpace with
  | nil =>
      rw [hdrop] at hparse
      contradiction
  | cons char after =>
      have hnext : text.dropWhile isSpace ≠ [] := by
        rw [hdrop]
        exact List.cons_ne_nil char after
      rw [(takeWhile_append_of_dropWhile_ne_nil hnext later).2, hdrop, List.cons_append]
      rw [hdrop] at hparse
      dsimp only at hparse ⊢
      split_ifs at hparse ⊢
      · exact parseLiteral_append hparse later
      · exact parseLiteral_append hparse later
      · exact parseLiteral_append hparse later
      · obtain ⟨⟨found, tail⟩, hfound, heq⟩ := Option.map_eq_some_iff.mp hparse
        obtain ⟨rfl, rfl⟩ := Prod.mk.inj heq
        rw [parseString_append hfound later]
        rfl
      · cases hclose : expect ']' after with
        | some tail =>
            rw [hclose] at hparse
            obtain ⟨rfl, rfl⟩ := Prod.mk.inj (Option.some.inj hparse)
            rw [expect_append (dropWhile_ne_nil_of_expect hclose) later, hclose]
            rfl
        | none =>
            rw [hclose] at hparse
            obtain ⟨⟨items, tail⟩, hitems, heq⟩ := Option.map_eq_some_iff.mp hparse
            obtain ⟨rfl, rfl⟩ := Prod.mk.inj heq
            rw [expect_append (dropWhile_ne_nil_of_parseItems hitems) later, hclose,
              Option.map_none, hreads.items _ _ _ hitems more hmore later]
            rfl
      · cases hclose : expect '}' after with
        | some tail =>
            rw [hclose] at hparse
            obtain ⟨rfl, rfl⟩ := Prod.mk.inj (Option.some.inj hparse)
            rw [expect_append (dropWhile_ne_nil_of_expect hclose) later, hclose]
            rfl
        | none =>
            rw [hclose] at hparse
            obtain ⟨⟨members, tail⟩, hmembers, heq⟩ := Option.map_eq_some_iff.mp hparse
            obtain ⟨rfl, rfl⟩ := Prod.mk.inj heq
            rw [expect_append (dropWhile_ne_nil_of_parseMembers hmembers) later, hclose,
              Option.map_none, hreads.members _ _ _ hmembers more hmore later]
            rfl
      · obtain ⟨⟨number, tail⟩, hnumber, heq⟩ := Option.map_eq_some_iff.mp hparse
        obtain ⟨rfl, rfl⟩ := Prod.mk.inj heq
        rw [← List.cons_append, parseNumber_append hnumber (hends.resolve_right id) later]
        rfl

theorem ReadsOn.readItems {fuel : ℕ} (hreads : ReadsOn floats fuel) {text rest : List Char}
    {items : List Json} (hparse : parseItems floats (fuel + 1) text = some (items, rest))
    {more : ℕ} (hmore : fuel ≤ more) (later : List Char) :
    parseItems floats (more + 1) (text ++ later) = some (items, rest ++ later) := by
  rw [parseItems, Option.bind_eq_bind, Option.bind_eq_some_iff] at hparse
  obtain ⟨⟨item, after⟩, hitem, hparse⟩ := hparse
  dsimp only at hparse
  cases hclose : expect ']' after with
  | some tail =>
      rw [hclose] at hparse
      obtain ⟨rfl, rfl⟩ := Prod.mk.inj (Option.some.inj hparse)
      have hvalue := hreads.value _ _ _ hitem (.inl (ne_nil_of_expect hclose)) more hmore later
      rw [parseItems, hvalue, Option.bind_eq_bind, Option.bind_some]
      dsimp only
      rw [expect_append (dropWhile_ne_nil_of_expect hclose) later, hclose]
      rfl
  | none =>
      rw [hclose] at hparse
      dsimp only at hparse
      rw [Option.bind_eq_bind, Option.bind_eq_some_iff] at hparse
      obtain ⟨tail, hcomma, hparse⟩ := hparse
      rw [Option.bind_eq_bind, Option.bind_eq_some_iff] at hparse
      obtain ⟨⟨found, final⟩, hfound, heq⟩ := hparse
      obtain ⟨rfl, rfl⟩ := Prod.mk.inj (Option.some.inj heq)
      have hvalue := hreads.value _ _ _ hitem (.inl (ne_nil_of_expect hcomma)) more hmore later
      have hnext := dropWhile_ne_nil_of_expect hcomma
      rw [parseItems, hvalue, Option.bind_eq_bind, Option.bind_some]
      dsimp only
      rw [expect_append hnext later, hclose, expect_append hnext later, hcomma, Option.map_none,
        Option.map_some]
      dsimp only
      rw [Option.bind_eq_bind, Option.bind_some, hreads.items _ _ _ hfound more hmore later]
      rfl

theorem ReadsOn.readMembers {fuel : ℕ} (hreads : ReadsOn floats fuel) {text rest : List Char}
    {members : List (String × Json)}
    (hparse : parseMembers floats (fuel + 1) text = some (members, rest)) {more : ℕ}
    (hmore : fuel ≤ more) (later : List Char) :
    parseMembers floats (more + 1) (text ++ later) = some (members, rest ++ later) := by
  simp only [parseMembers, Option.bind_eq_bind, Option.bind_eq_some_iff] at hparse
  obtain ⟨opened, hquote, ⟨key, keyed⟩, hkey, valued, hcolon, ⟨value, after⟩, hvalue, hparse⟩ :=
    hparse
  dsimp only at hparse
  rw [parseMembers, expect_append (dropWhile_ne_nil_of_expect hquote) later, hquote]
  simp only [Option.map_some, Option.bind_eq_bind, Option.bind_some, parseString_append hkey later]
  rw [expect_append (dropWhile_ne_nil_of_expect hcolon) later, hcolon]
  simp only [Option.map_some, Option.bind_some]
  cases hclose : expect '}' after with
  | some tail =>
      rw [hclose] at hparse
      obtain ⟨rfl, rfl⟩ := Prod.mk.inj (Option.some.inj hparse)
      rw [hreads.value _ _ _ hvalue (.inl (ne_nil_of_expect hclose)) more hmore later,
        Option.bind_some]
      dsimp only
      rw [expect_append (dropWhile_ne_nil_of_expect hclose) later, hclose]
      rfl
  | none =>
      rw [hclose] at hparse
      dsimp only at hparse
      rw [Option.bind_eq_some_iff] at hparse
      obtain ⟨tail, hcomma, hparse⟩ := hparse
      rw [Option.bind_eq_some_iff] at hparse
      obtain ⟨⟨found, final⟩, hfound, heq⟩ := hparse
      obtain ⟨rfl, rfl⟩ := Prod.mk.inj (Option.some.inj heq)
      have hnext := dropWhile_ne_nil_of_expect hcomma
      rw [hreads.value _ _ _ hvalue (.inl (ne_nil_of_expect hcomma)) more hmore later,
        Option.bind_some]
      dsimp only
      rw [expect_append hnext later, hclose, expect_append hnext later, hcomma, Option.map_none,
        Option.map_some]
      dsimp only
      rw [Option.bind_some, hreads.members _ _ _ hfound more hmore later, Option.bind_some]
      rfl

/-- Texts are read on, whatever the fuel. -/
theorem readsOn (floats : Floats) (fuel : ℕ) : ReadsOn floats fuel := by
  induction fuel with
  | zero =>
      constructor
      · intro text json rest hparse
        rw [parseValue] at hparse
        contradiction
      · intro text items rest hparse
        rw [parseItems] at hparse
        contradiction
      · intro text members rest hparse
        rw [parseMembers] at hparse
        contradiction
  | succ fuel ih =>
      constructor
      · intro text json rest hparse hends more hmore later
        obtain ⟨more, rfl⟩ := Nat.exists_eq_succ_of_ne_zero (Nat.ne_zero_of_lt hmore)
        exact ih.readValue hparse hends (Nat.le_of_succ_le_succ hmore) later
      · intro text items rest hparse more hmore later
        obtain ⟨more, rfl⟩ := Nat.exists_eq_succ_of_ne_zero (Nat.ne_zero_of_lt hmore)
        exact ih.readItems hparse (Nat.le_of_succ_le_succ hmore) later
      · intro text members rest hparse more hmore later
        obtain ⟨more, rfl⟩ := Nat.exists_eq_succ_of_ne_zero (Nat.ne_zero_of_lt hmore)
        exact ih.readMembers hparse (Nat.le_of_succ_le_succ hmore) later

/-- A text that opens an object holds no number. -/
theorem closed_of_parseValue {fuel : ℕ} {text rest : List Char} {json : Json}
    (hparse : parseValue floats fuel ('{' :: text) = some (json, rest)) : json.Closed := by
  cases fuel with
  | zero =>
      rw [parseValue] at hparse
      contradiction
  | succ fuel =>
      cases hclose : expect '}' text with
      | some tail =>
          have hempty : parseValue floats (fuel + 1) ('{' :: text) = some (.object [], tail) := by
            rw [parseValue]
            simp [isSpace, quote, hclose]
          rw [hempty] at hparse
          obtain ⟨rfl, rfl⟩ := Prod.mk.inj (Option.some.inj hparse)
          trivial
      | none =>
          rw [parseValue_object fuel hclose] at hparse
          obtain ⟨⟨members, tail⟩, -, heq⟩ := Option.map_eq_some_iff.mp hparse
          obtain ⟨rfl, rfl⟩ := Prod.mk.inj heq
          trivial

/-- Only the whole text of an object parses. -/
theorem eq_print_of_parse {members : List (String × Json)} (hplain : (Json.object members).Plain)
    {front : List Char} (hfront : front <+: (Json.object members).print floats) {json : Json}
    (hparse : parse floats front = some json) : front = (Json.object members).print floats := by
  obtain ⟨later, hlater⟩ := hfront
  rw [parse, Option.bind_eq_bind, Option.bind_eq_some_iff] at hparse
  obtain ⟨⟨found, rest⟩, hvalue, -⟩ := hparse
  cases front with
  | nil => contradiction
  | cons first front =>
      have hwhole := hlater
      rw [Json.print, List.cons_append, List.cons.injEq] at hlater
      obtain ⟨rfl, -⟩ := hlater
      have hclosed := closed_of_parseValue hvalue
      have hprinted := parseValue_print (.object members) hplain [] trivial
        (2 * ((Json.object members).print floats).length + 1) (Nat.lt_succ_self _)
      have hfuel : 2 * ('{' :: front).length + 1 ≤
          2 * ((Json.object members).print floats).length + 1 := by
        rw [← hwhole, List.length_append]
        omega
      have hread := (readsOn floats _).value _ _ _ hvalue (.inr hclosed) _ hfuel later
      rw [hwhole] at hread
      rw [List.append_nil, hread] at hprinted
      have hnil := (Prod.mk.inj (Option.some.inj hprinted)).2
      rw [(List.append_eq_nil_iff.mp hnil).2, List.append_nil] at hwhole
      exact hwhole

end ReadsOn

end Json

/-! ## Lines cut off -/

namespace Utf8

/-- Bytes cut off between two characters are those of the characters before. -/
theorem prefix_of_encodeChars_prefix {front whole : List Char}
    (hinitial : encodeChars front <+: encodeChars whole) : front <+: whole := by
  induction front generalizing whole with
  | nil => exact List.nil_prefix
  | cons char front ih =>
      obtain ⟨rest, hrest⟩ := hinitial
      cases whole with
      | nil =>
          rw [show encodeChars [] = [] from rfl, List.append_eq_nil_iff] at hrest
          exact absurd hrest.1 (encodeChars_cons_ne_nil char front)
      | cons other whole =>
          have hchar := (decodeChar_encodeChars other whole).1
          rw [← hrest, encodeChars, List.flatMap_cons, List.append_assoc, decodeChar_append]
            at hchar
          obtain rfl := Option.some.inj hchar
          rw [List.cons_prefix_cons]
          refine ⟨rfl, ih ⟨rest, ?_⟩⟩
          rw [encodeChars, encodeChars, List.flatMap_cons, List.flatMap_cons, List.append_assoc,
            List.append_cancel_left_eq] at hrest
          exact hrest

/-- `read_line`: up to a newline, or what there is when the stream ends. -/
def readLine (sent : OsString) : OsString :=
  match takeLine sent with
  | some (line, _) => line
  | none => sent

/-- Of a line that was cut off, all that is left is read. -/
theorem readLine_of_prefix {sent body : OsString} (hbody : newline ∉ body)
    (hsent : sent <+: body ++ [newline]) : readLine sent = sent := by
  rw [readLine]
  rcases List.prefix_concat_iff.mp hsent with rfl | hshort
  · rw [takeLine_append hbody []]
  · have hnone : newline ∉ sent := fun hmem => hbody (hshort.subset hmem)
    rw [takeLine_eq_none_iff.mpr hnone]

theorem trimEnd_prefix (text : List Char) : trimEnd text <+: text :=
  List.rdropWhile_prefix isWhitespace text

end Utf8

namespace WireForm

variable {Value : Type} {form : WireForm Value} {floats : Json.Floats} {value : Value}
  {text : List Char}

/-- A value's line that was cut off holds no value, unless only the newline is missing. -/
theorem trimEnd_eq_of_parse (hobjects : form.Objects)
    (htext : form.print floats value = .ok text) {front : List Char}
    (hfront : front <+: text ++ ['\n']) {json : Json}
    (hparse : Json.parse floats (Utf8.trimEnd front) = some json) :
    Utf8.trimEnd front = text := by
  have hwhole := trimEnd_of_print hobjects htext
  obtain ⟨printed, hprinted, rfl⟩ := map_eq_ok_iff.mp htext
  have hplain := (form.shallow hprinted).plain
  obtain ⟨members, rfl⟩ := hobjects value printed hprinted
  rcases List.prefix_concat_iff.mp hfront with rfl | hshort
  · exact hwhole
  · exact Json.eq_print_of_parse hplain ((Utf8.trimEnd_prefix front).trans hshort) hparse

end WireForm

end RadicleArtifact.Library
