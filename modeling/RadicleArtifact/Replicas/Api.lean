import RadicleArtifact.Library.JsonText
import RadicleArtifact.Library.Utf8
import RadicleArtifact.Cob.Reducer
import RadicleArtifact.Watch.Wanted

/-!
# Writing to a release

A release open for writing is the state it had when it was opened.  A method checks its
arguments, against that state where it has to, and commits its actions as one signed entry.
The checks stand here and not in the reducer, which takes whatever was signed.
-/

namespace RadicleArtifact.Replicas

open RadicleArtifact.Core
open RadicleArtifact.Library
open RadicleArtifact.Cob
open RadicleArtifact.Watch (metadataKeySizeBytes)

/-- Maximum byte length for a redaction reason. -/
def maxRedactReasonLen : ℕ := 2048

/-- Maximum byte length for a metadata key. -/
def maxMetadataKeyLen : ℕ := 256

/-- Maximum byte length for a serialized metadata value. -/
def maxMetadataValueLen : ℕ := 8 * 1024

/-- Why a method refuses its arguments. -/
inductive WriteError where
  | emptyKey
  | keyTooLong (actual max : ℕ)
  | keyControlChar (ch : Char)
  | valueTooLarge (actual max : ℕ)
  | notFound (cid : Cid)
  | reasonTooLong (actual max : ℕ)

/-- `debug` is how a character is shown, `cidText` how an identifier is. -/
def WriteError.message (debug : Char → String) (cidText : Cid → String) : WriteError → String
  | .emptyKey => "metadata key must not be empty"
  | .keyTooLong actual max =>
      "metadata key exceeds maximum length of " ++ toString max ++ " bytes (got " ++
        toString actual ++ ")"
  | .keyControlChar ch => "metadata key contains control character " ++ debug ch
  | .valueTooLarge actual max =>
      "metadata value exceeds maximum length of " ++ toString max ++ " bytes (got " ++
        toString actual ++ ")"
  | .notFound cid => "artifact " ++ cidText cid ++ " not found in release"
  | .reasonTooLong actual max =>
      "redaction reason exceeds maximum length of " ++ toString max ++ " bytes (got " ++
        toString actual ++ ")"

/-- `str::len` -/
def byteLen (text : String) : ℕ :=
  (Utf8.encode text).length

/-- `char::is_control` -/
def isControl (ch : Char) : Bool :=
  ch.toNat < 0x20 || (0x7f ≤ ch.toNat && ch.toNat < 0xa0)

/-- Enforce the metadata key rules. -/
def validateMetadataKey (key : String) : Except WriteError Unit :=
  if key.toList.isEmpty then .error .emptyKey
  else if maxMetadataKeyLen < byteLen key then
    .error (.keyTooLong (byteLen key) maxMetadataKeyLen)
  else
    match key.toList.find? isControl with
    | some ch => .error (.keyControlChar ch)
    | none => .ok ()

section Methods

variable (floats : Json.Floats)

/-- The bytes of a value as `serde_json::to_vec` writes it. -/
def serializedLen (value : JsonValue) : ℕ :=
  (Utf8.encodeChars (value.json.print floats)).length

/-- Reject metadata values whose serialized form is too long. -/
def validateMetadataValueSize (value : JsonValue) : Except WriteError Unit :=
  if maxMetadataValueLen < serializedLen floats value then
    .error (.valueTooLarge (serializedLen floats value) maxMetadataValueLen)
  else .ok ()

/-- `serde_json::json!` of a size. -/
def sizeValue (size : UInt64) : JsonValue :=
  JsonValue.parse (.number (.posInt size))

/-- The calls that write to an open release. -/
inductive Method where
  | registerArtifact (cid : Cid) (name : String)
  | registerArtifactWithSize (cid : Cid) (name : String) (sizeBytes : UInt64)
  | addLocation (cid : Cid) (location : Url)
  | removeLocation (cid : Cid) (location : Url)
  | attest (cid : Cid)
  | setMetadata (cid : Cid) (key : String) (value : JsonValue)
  | removeMetadata (cid : Cid) (key : String)
  | redact (cid : Cid) (reason : String)

/-- The actions one method commits together, when it accepts its arguments. -/
def Method.transaction (release : Release) : Method → Except WriteError (List Action)
  | .registerArtifact cid name => .ok [.registerArtifact cid name]
  -- A size always fits, so it is not checked.
  | .registerArtifactWithSize cid name sizeBytes =>
      .ok [.registerArtifact cid name,
        .setMetadata cid metadataKeySizeBytes (sizeValue sizeBytes)]
  | .addLocation cid location => .ok [.addLocation cid location]
  | .removeLocation cid location => .ok [.removeLocation cid location]
  | .attest cid => .ok [.attest cid]
  | .setMetadata cid key value => do
      validateMetadataKey key
      validateMetadataValueSize floats value
      return [.setMetadata cid key value]
  | .removeMetadata cid key => .ok [.removeMetadata cid key]
  | .redact cid reason =>
      if (release.artifact cid).isNone then .error (.notFound cid)
      else if maxRedactReasonLen < byteLen reason then
        .error (.reasonTooLong (byteLen reason) maxRedactReasonLen)
      else .ok [.redact cid reason]

/-! ## What is accepted -/

/-- A key the rules let through. -/
structure ValidKey (key : String) : Prop where
  nonempty : key ≠ ""
  length : byteLen key ≤ maxMetadataKeyLen
  plain : ∀ ch ∈ key.toList, isControl ch = false

theorem validateMetadataKey_eq_ok_iff {key : String} :
    validateMetadataKey key = .ok () ↔ ValidKey key := by
  have hempty : key.toList.isEmpty = true ↔ key = "" := by
    rw [List.isEmpty_iff, String.toList_eq_nil_iff]
  have hfind : key.toList.find? isControl = none ↔ ∀ ch ∈ key.toList, isControl ch = false := by
    rw [List.find?_eq_none]
    simp
  rw [validateMetadataKey]
  constructor
  · intro hok
    split at hok
    · contradiction
    · rename_i hnonempty
      split at hok
      · contradiction
      · rename_i hlength
        split at hok
        · contradiction
        · rename_i hplain
          exact ⟨fun h => hnonempty (hempty.mpr h), by omega, hfind.mp hplain⟩
  · rintro ⟨hnonempty, hlength, hplain⟩
    rw [if_neg (hnonempty <| hempty.mp ·), if_neg (by omega), hfind.mpr hplain]

theorem validateMetadataValueSize_eq_ok_iff {floats : Json.Floats} {value : JsonValue} :
    validateMetadataValueSize floats value = .ok () ↔
      serializedLen floats value ≤ maxMetadataValueLen := by
  rw [validateMetadataValueSize]
  split <;> simp <;> omega

theorem length_encodeChars_of_ascii {chars : List Char} (hascii : ∀ ch ∈ chars, ch.toNat < 128) :
    (Utf8.encodeChars chars).length = chars.length := by
  induction chars with
  | nil => rfl
  | cons ch chars ih =>
      obtain ⟨hch, hrest⟩ := List.forall_mem_cons.mp hascii
      have hone : (String.utf8EncodeChar ch).length = 1 := by
        have hval : ch.val ≤ 127 := by
          rw [UInt32.le_iff_toNat_le]
          exact Nat.lt_succ_iff.mp hch
        simp [String.length_utf8EncodeChar, Char.utf8Size, hval]
      have hlength := ih hrest
      rw [Utf8.encodeChars] at hlength ⊢
      rw [List.flatMap_cons, List.length_append, hone, hlength, List.length_cons, Nat.add_comm]

/-- A size fits, as the code says. -/
theorem serializedLen_sizeValue_le (size : UInt64) :
    serializedLen floats (sizeValue size) ≤ maxMetadataValueLen := by
  have hjson : (sizeValue size).json = .number (.posInt size) := rfl
  have hascii : ∀ ch ∈ Nat.toDigits 10 size.toNat, ch.toNat < 128 := by
    intro ch hch
    have hdigit := Nat.isDigit_of_mem_toDigits (by decide) (by decide) hch
    have hle : ch.val ≤ 57 := by
      simp only [Char.isDigit, Bool.and_eq_true, decide_eq_true_eq] at hdigit
      exact hdigit.2
    rw [UInt32.le_iff_toNat_le] at hle
    exact lt_of_le_of_lt hle (by decide)
  have hlength : (Nat.toDigits 10 size.toNat).length ≤ 20 :=
    (Nat.length_toDigits_le_iff (by decide) (by decide)).mpr
      (size.toNat_lt.trans (by norm_num))
  rw [serializedLen, hjson, Json.print, Json.printNumber, length_encodeChars_of_ascii hascii]
  exact hlength.trans (by decide)

theorem validKey_sizeBytes : ValidKey metadataKeySizeBytes where
  nonempty := by decide +kernel
  length := by decide +kernel
  plain := by simp [metadataKeySizeBytes, isControl]

/-- What the checks leave of an action, at the state they were made against. -/
def Permitted (release : Release) : Action → Prop
  | .redact cid reason =>
      (∃ artifact, release.artifact cid = some artifact) ∧ byteLen reason ≤ maxRedactReasonLen
  | .setMetadata _ key value => ValidKey key ∧ serializedLen floats value ≤ maxMetadataValueLen
  | _ => True

/-- Every action of an accepted method passed its checks. -/
theorem permitted_of_transaction {floats : Json.Floats} {release : Release} {method : Method}
    {actions : List Action} (haccepted : method.transaction floats release = .ok actions) :
    ∀ action ∈ actions, Permitted floats release action := by
  cases method with
  | registerArtifactWithSize cid name sizeBytes =>
      obtain rfl := Except.ok.inj haccepted
      simp only [List.mem_cons, List.not_mem_nil, or_false, forall_eq_or_imp, forall_eq]
      exact ⟨trivial, validKey_sizeBytes, serializedLen_sizeValue_le floats sizeBytes⟩
  | setMetadata cid key value =>
      rw [Method.transaction] at haccepted
      cases hkey : validateMetadataKey key with
      | error err => simp [hkey, bind, Except.bind] at haccepted
      | ok value' =>
          cases hvalue : validateMetadataValueSize floats value with
          | error err => simp [hkey, hvalue, bind, Except.bind] at haccepted
          | ok value'' =>
              simp only [hkey, hvalue, bind, Except.bind, pure, Except.pure,
                Except.ok.injEq] at haccepted
              subst haccepted
              simp only [List.mem_singleton, forall_eq]
              exact ⟨validateMetadataKey_eq_ok_iff.mp hkey,
                validateMetadataValueSize_eq_ok_iff.mp hvalue⟩
  | redact cid reason =>
      rw [Method.transaction] at haccepted
      split at haccepted
      · contradiction
      · rename_i hfound
        split at haccepted
        · contradiction
        · rename_i hlength
          obtain rfl := Except.ok.inj haccepted
          simp only [List.mem_singleton, forall_eq]
          rw [Option.isNone_iff_eq_none] at hfound
          exact ⟨Option.ne_none_iff_exists'.mp hfound, Nat.le_of_not_lt hlength⟩
  | _ =>
      obtain rfl := Except.ok.inj haccepted
      simp only [List.mem_singleton, forall_eq]
      trivial

end Methods

end RadicleArtifact.Replicas
