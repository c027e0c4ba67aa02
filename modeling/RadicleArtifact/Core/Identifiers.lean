import RadicleArtifact.Library.BTreeMap

/-!
# Identifiers

Repositories, collaborative objects, commits and users are named by byte
strings of a fixed length, ordered byte by byte.  Object ids also have a
hexadecimal text form, which the cache database stores and sorts by; the text
order is the byte order.
-/

namespace RadicleArtifact.Core

abbrev Byte := Fin 256

instance byteBound : NeZero (256 : ℕ) :=
  ⟨by decide⟩

/-- A byte string whose length is part of its type. -/
structure FixedBytes (length : ℕ) where
  toList : List Byte
  length_toList : toList.length = length

namespace FixedBytes

variable {length : ℕ}

theorem toList_injective :
    Function.Injective (toList : FixedBytes length → List Byte) := by
  rintro ⟨left, hleft⟩ ⟨right, hright⟩ heq
  simpa using heq

instance : LinearOrder (FixedBytes length) :=
  LinearOrder.lift' toList toList_injective

/-- `[byte; length]` -/
def filled (length : ℕ) (byte : Byte) : FixedBytes length where
  toList := List.replicate length byte
  length_toList := List.length_replicate

theorem lt_iff_toList_lt {left right : FixedBytes length} :
    left < right ↔ left.toList < right.toList := Iff.rfl

end FixedBytes

/-- A Git object id.  Radicle's ids are 20-byte SHA-1 digests. -/
abbrev Oid := FixedBytes 20

/-- A collaborative object is named by the object id of its root change. -/
abbrev ObjectId := Oid

abbrev ReleaseId := ObjectId

/-- A repository is named by the object id of its identity document. -/
abbrev RepoId := Oid

/-- A user: the 32 bytes of an Ed25519 public key. -/
abbrev Did := FixedBytes 32

/-! The identifiers are keys of maps and sets. -/

instance oidTransCmp : Std.TransCmp (compare : Oid → Oid → Ordering) :=
  inferInstance

instance didTransCmp : Std.TransCmp (compare : Did → Did → Ordering) :=
  inferInstance

/-- A network endpoint: the 32 bytes of its public key. -/
abbrev EndpointId := FixedBytes 32

/-- Creation time of an operation: a 64-bit number of milliseconds. -/
abbrev Timestamp := Fin (2 ^ 64)

/-- A parsed URL is its serialization, which always carries a scheme. -/
structure Url where
  serialization : String
  scheme_mem : ':' ∈ serialization.toList

namespace Url

theorem serialization_injective : Function.Injective serialization := by
  rintro ⟨left, hleft⟩ ⟨right, hright⟩ heq
  simpa using heq

instance : LinearOrder Url :=
  LinearOrder.lift' serialization serialization_injective

instance transCmp : Std.TransCmp (compare : Url → Url → Ordering) :=
  inferInstance

theorem serialization_ne_empty (url : Url) : url.serialization ≠ "" := by
  intro hempty
  have hmem := url.scheme_mem
  simp [hempty] at hmem

end Url

/-! ## Hexadecimal text form -/

def hexDigit (digit : ℕ) : Char :=
  Char.ofNat (if digit < 10 then 48 + digit else 87 + digit)

def hexByte (byte : Byte) : List Char :=
  [hexDigit (byte.val / 16), hexDigit (byte.val % 16)]

def hexChars (bytes : List Byte) : List Char :=
  bytes.flatMap hexByte

/-- `Oid`'s `Display`: forty lowercase hexadecimal digits. -/
def Oid.toHex (oid : Oid) : String :=
  String.ofList (hexChars oid.toList)

private theorem hexDigit_lt_iff_fin :
    ∀ left right : Fin 16, hexDigit left < hexDigit right ↔ left < right := by
  decide

private theorem hexDigit_lt_iff {left right : ℕ} (hleft : left < 16)
    (hright : right < 16) : hexDigit left < hexDigit right ↔ left < right :=
  hexDigit_lt_iff_fin ⟨left, hleft⟩ ⟨right, hright⟩

private theorem hexDigit_inj {left right : ℕ} (hleft : left < 16)
    (hright : right < 16) : hexDigit left = hexDigit right ↔ left = right := by
  have hlt := hexDigit_lt_iff hleft hright
  have hgt := hexDigit_lt_iff hright hleft
  constructor
  · intro heq
    simp only [heq, lt_self_iff_false, false_iff, not_lt] at hlt hgt
    exact le_antisymm hgt hlt
  · rintro rfl
    rfl

theorem hexChars_lt_iff {left right : List Byte} (hlength : left.length = right.length) :
    hexChars left < hexChars right ↔ left < right := by
  induction left generalizing right with
  | nil =>
      cases right with
      | nil => simp
      | cons => simp at hlength
  | cons byte left ih =>
      cases right with
      | nil => simp at hlength
      | cons byte' right =>
          have hih : hexChars left < hexChars right ↔ left < right :=
            ih (by simpa using hlength)
          have hhigh : ∀ byte : Byte, byte.val / 16 < 16 := fun byte => by omega
          have hlow : ∀ byte : Byte, byte.val % 16 < 16 := fun byte =>
            Nat.mod_lt _ (by decide)
          simp only [hexChars, List.flatMap_cons, hexByte, List.cons_append,
            List.nil_append, List.cons_lt_cons_iff,
            hexDigit_lt_iff (hhigh _) (hhigh _), hexDigit_lt_iff (hlow _) (hlow _),
            hexDigit_inj (hhigh _) (hhigh _), hexDigit_inj (hlow _) (hlow _),
            Fin.lt_def, Fin.ext_iff]
          rw [← hexChars, ← hexChars, hih]
          by_cases htail : left < right <;>
            simp only [htail, and_true, and_false, or_false] <;> omega

/-- Sorting ids by their text is sorting them by their bytes. -/
theorem Oid.toHex_lt_iff {left right : Oid} : left.toHex < right.toHex ↔ left < right := by
  rw [Oid.toHex, Oid.toHex, String.lt_iff_toList_lt, String.toList_ofList,
    String.toList_ofList, FixedBytes.lt_iff_toList_lt]
  exact hexChars_lt_iff (by rw [left.length_toList, right.length_toList])

theorem Oid.toHex_injective : Function.Injective Oid.toHex := by
  intro left right heq
  rcases lt_trichotomy left right with hlt | hoid | hgt
  · exact absurd (Oid.toHex_lt_iff.mpr hlt) (by simp [heq])
  · exact hoid
  · exact absurd (Oid.toHex_lt_iff.mpr hgt) (by simp [heq])

private theorem hexDigit_ne_comma_fin : ∀ digit : Fin 16, hexDigit digit ≠ ',' := by
  decide

/-- Texts of ids can be joined by commas and split again. -/
theorem Oid.comma_notMem_toHex (oid : Oid) : ',' ∉ oid.toHex.toList := by
  rw [Oid.toHex, String.toList_ofList, hexChars, List.mem_flatMap]
  rintro ⟨byte, -, hcomma⟩
  rcases List.mem_pair.mp hcomma with hhigh | hlow
  · exact hexDigit_ne_comma_fin ⟨byte.val / 16, by omega⟩ hhigh.symm
  · exact hexDigit_ne_comma_fin ⟨byte.val % 16, by omega⟩ hlow.symm

end RadicleArtifact.Core
