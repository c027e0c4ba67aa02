import Mathlib

/-!
# UTF-8

File names and paths are byte strings that need not be UTF-8.  `toStr` reads one
strictly, `lossy` puts a replacement character in place of each maximal ill-formed
part.  Both give back what `encode` wrote.
-/

namespace RadicleArtifact.Library.Utf8

/-- A byte string of the operating system. -/
abbrev OsString := List UInt8

def encodeChars (chars : List Char) : OsString :=
  chars.flatMap String.utf8EncodeChar

def encode (text : String) : OsString :=
  encodeChars text.toList

/-- The character that starts a byte string. -/
def decodeChar (bytes : OsString) : Option Char :=
  ByteArray.utf8DecodeChar? bytes.toByteArray 0

theorem decodeChar_append (char : Char) (rest : OsString) :
    decodeChar (String.utf8EncodeChar char ++ rest) = some char := by
  rw [decodeChar, List.toByteArray_append]
  exact ByteArray.utf8DecodeChar?_utf8EncodeChar_append

theorem exists_of_decodeChar {bytes : OsString} {char : Char}
    (hchar : decodeChar bytes = some char) :
    ∃ rest, bytes = String.utf8EncodeChar char ++ rest := by
  obtain ⟨rest, hrest⟩ := ByteArray.exists_of_utf8DecodeChar?_eq_some hchar
  refine ⟨rest.data.toList, ?_⟩
  have hlist := congrArg (fun bytes => bytes.data.toList) hrest
  simpa using hlist

theorem encodeChars_cons_ne_nil (char : Char) (chars : List Char) :
    encodeChars (char :: chars) ≠ [] := by
  intro hempty
  have hlength := congrArg List.length hempty
  have hpos := char.utf8Size_pos
  rw [encodeChars, List.flatMap_cons, List.length_append, String.length_utf8EncodeChar,
    List.length_nil] at hlength
  omega

/-- One character off the front. -/
theorem decodeChar_encodeChars (char : Char) (chars : List Char) :
    decodeChar (encodeChars (char :: chars)) = some char ∧
      (encodeChars (char :: chars)).drop char.utf8Size = encodeChars chars := by
  rw [encodeChars, List.flatMap_cons]
  refine ⟨decodeChar_append char _, ?_⟩
  rw [← String.length_utf8EncodeChar char, List.drop_left, encodeChars]

/-- The bytes of characters beyond ASCII lie beyond ASCII. -/
theorem ascii_mem_utf8EncodeChar {byte : UInt8} (hbyte : byte < 0x80) {char : Char} :
    byte ∈ String.utf8EncodeChar char ↔ char.toNat = byte.toNat := by
  have hlt : byte.toNat < 0x80 := UInt8.lt_iff_toNat_lt.mp hbyte
  have hval : char.val.toNat = char.toNat := rfl
  rw [String.utf8EncodeChar]
  simp only [hval]
  split_ifs
  all_goals
    simp only [List.mem_cons, List.not_mem_nil, or_false, ← UInt8.toNat_inj,
      UInt8.toNat_ofNat']
    omega

theorem ascii_mem_encodeChars {byte : UInt8} (hbyte : byte < 0x80) {chars : List Char} :
    byte ∈ encodeChars chars ↔ ∃ char ∈ chars, char.toNat = byte.toNat := by
  rw [encodeChars, List.mem_flatMap]
  simp only [ascii_mem_utf8EncodeChar hbyte]

/-! ## Strict reading -/

def decodeAll : ℕ → OsString → Option (List Char)
  | _, [] => some []
  | 0, _ => none
  | fuel + 1, bytes =>
      match decodeChar bytes with
      | some char => (decodeAll fuel (bytes.drop char.utf8Size)).map (char :: ·)
      | none => none

/-- `to_str` -/
def toStr (bytes : OsString) : Option String :=
  (decodeAll bytes.length bytes).map String.ofList

theorem decodeAll_encodeChars (chars : List Char) {fuel : ℕ}
    (hfuel : (encodeChars chars).length ≤ fuel) :
    decodeAll fuel (encodeChars chars) = some chars := by
  induction chars generalizing fuel with
  | nil => cases fuel <;> rfl
  | cons char chars ih =>
      obtain ⟨hchar, hrest⟩ := decodeChar_encodeChars char chars
      have hlength := congrArg List.length hrest
      have hpos := char.utf8Size_pos
      have hne := encodeChars_cons_ne_nil char chars
      rw [List.length_drop] at hlength
      cases hbytes : encodeChars (char :: chars) with
      | nil => exact absurd hbytes hne
      | cons byte bytes =>
          rw [hbytes] at hchar hrest hfuel hlength
          cases fuel with
          | zero => simp at hfuel
          | succ fuel =>
              rw [List.length_cons] at hfuel hlength
              rw [decodeAll, hchar]
              simp only [hrest, ih (show (encodeChars chars).length ≤ fuel by omega),
                Option.map_some]
              simp

theorem encodeChars_of_decodeAll {fuel : ℕ} {bytes : OsString} {chars : List Char}
    (hchars : decodeAll fuel bytes = some chars) : bytes = encodeChars chars := by
  induction fuel generalizing bytes chars with
  | zero =>
      cases bytes with
      | nil => exact Option.some.inj hchars ▸ rfl
      | cons byte bytes => contradiction
  | succ fuel ih =>
      cases bytes with
      | nil => exact Option.some.inj hchars ▸ rfl
      | cons byte bytes =>
          rw [decodeAll] at hchars
          · split at hchars
            · rename_i char hchar
              obtain ⟨later, hlater, rfl⟩ := Option.map_eq_some_iff.mp hchars
              obtain ⟨rest, hrest⟩ := exists_of_decodeChar hchar
              rw [hrest, ← String.length_utf8EncodeChar char, List.drop_left] at hlater
              rw [hrest, ih hlater, encodeChars, encodeChars, List.flatMap_cons]
            · contradiction
          · simp

/-- A byte string is text exactly when it is the encoding of that text. -/
theorem toStr_eq_some_iff {bytes : OsString} {text : String} :
    toStr bytes = some text ↔ bytes = encode text := by
  rw [toStr, Option.map_eq_some_iff]
  constructor
  · rintro ⟨chars, hchars, rfl⟩
    rw [encode, String.toList_ofList]
    exact encodeChars_of_decodeAll hchars
  · rintro rfl
    exact ⟨text.toList, decodeAll_encodeChars text.toList le_rfl, String.ofList_toList⟩

theorem toStr_encode (text : String) : toStr (encode text) = some text :=
  toStr_eq_some_iff.mpr rfl

theorem encode_injective : Function.Injective encode := by
  intro left right heq
  have hleft := toStr_encode left
  rw [heq, toStr_encode] at hleft
  exact (Option.some.inj hleft).symm

/-! ## Lossy reading -/

def isContinuation (byte : UInt8) : Bool :=
  0x80 ≤ byte && byte ≤ 0xbf

/-- The second bytes a first byte admits, and the length it announces. -/
def lead (first : UInt8) : Option (UInt8 × UInt8 × ℕ) :=
  if 0xc2 ≤ first ∧ first ≤ 0xdf then some (0x80, 0xbf, 2)
  else if first = 0xe0 then some (0xa0, 0xbf, 3)
  else if first = 0xed then some (0x80, 0x9f, 3)
  else if 0xe1 ≤ first ∧ first ≤ 0xef then some (0x80, 0xbf, 3)
  else if first = 0xf0 then some (0x90, 0xbf, 4)
  else if 0xf1 ≤ first ∧ first ≤ 0xf3 then some (0x80, 0xbf, 4)
  else if first = 0xf4 then some (0x80, 0x8f, 4)
  else none

/-- How many bytes one replacement character stands for. -/
def invalidLength : OsString → ℕ
  | first :: second :: rest =>
      match lead first with
      | some (low, high, width) =>
          if low ≤ second ∧ second ≤ high then
            2 + ((rest.take (width - 3)).takeWhile isContinuation).length
          else 1
      | none => 1
  | _ => 1

def replacement : Char := Char.ofNat 0xfffd

def lossyChars : ℕ → OsString → List Char
  | _, [] => []
  | 0, _ => []
  | fuel + 1, bytes =>
      match decodeChar bytes with
      | some char => char :: lossyChars fuel (bytes.drop char.utf8Size)
      | none => replacement :: lossyChars fuel (bytes.drop (invalidLength bytes))

/-- `to_string_lossy` -/
def lossy (bytes : OsString) : String :=
  String.ofList (lossyChars bytes.length bytes)

theorem lossyChars_of_decodeAll {fuel : ℕ} {bytes : OsString} {chars : List Char}
    (hchars : decodeAll fuel bytes = some chars) : lossyChars fuel bytes = chars := by
  induction fuel generalizing bytes chars with
  | zero =>
      cases bytes with
      | nil => exact Option.some.inj hchars ▸ rfl
      | cons byte bytes => contradiction
  | succ fuel ih =>
      cases bytes with
      | nil => exact Option.some.inj hchars ▸ rfl
      | cons byte bytes =>
          rw [decodeAll] at hchars
          · rw [lossyChars]
            · split at hchars
              · rename_i char hchar
                obtain ⟨later, hlater, rfl⟩ := Option.map_eq_some_iff.mp hchars
                simp only [ih hlater]
              · contradiction
            · simp
          · simp

/-- Text is read back as it is. -/
theorem lossy_encode (text : String) : lossy (encode text) = text := by
  have hchars := decodeAll_encodeChars text.toList le_rfl
  rw [lossy, encode, lossyChars_of_decodeAll hchars, String.ofList_toList]

/-- Reading lossily makes up nothing within ASCII. -/
theorem ascii_mem_of_lossyChars {byte : UInt8} (hbyte : byte < 0x80) {fuel : ℕ}
    {bytes : OsString} {char : Char} (hchar : char ∈ lossyChars fuel bytes)
    (hsame : char.toNat = byte.toNat) : byte ∈ bytes := by
  induction fuel generalizing bytes with
  | zero => cases bytes <;> simp [lossyChars] at hchar
  | succ fuel ih =>
      cases bytes with
      | nil => simp [lossyChars] at hchar
      | cons first bytes =>
          rw [lossyChars] at hchar
          · split at hchar
            · rename_i found hfound
              rcases List.mem_cons.mp hchar with rfl | hlater
              · obtain ⟨rest, hrest⟩ := exists_of_decodeChar hfound
                rw [hrest]
                exact List.mem_append_left rest ((ascii_mem_utf8EncodeChar hbyte).mpr hsame)
              · exact List.mem_of_mem_drop (ih hlater)
            · rcases List.mem_cons.mp hchar with rfl | hlater
              · have hlt : byte.toNat < 0x80 := UInt8.lt_iff_toNat_lt.mp hbyte
                have hval : replacement.toNat = 0xfffd := by decide
                omega
              · exact List.mem_of_mem_drop (ih hlater)
          · simp

end RadicleArtifact.Library.Utf8
