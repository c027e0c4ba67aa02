import RadicleArtifact.Core.Cid
import RadicleArtifact.Library.Serde

/-!
# Text forms

Identifiers leave the program as text: in JSON documents, in database columns
and in messages.  Their texts are written and parsed by other packages, so they
are a parameter here, except that an object id prints as its hexadecimal digits
and a URL as its serialization.  So is the binary form of content identifiers.
-/

namespace RadicleArtifact.Core

open RadicleArtifact.Library

structure TextForms where
  cid : TextForm Cid
  did : TextForm Did
  oid : TextForm Oid
  url : TextForm Url
  print_oid : oid.print = Oid.toHex
  print_url : url.print = Url.serialization

/-- A map key that is a string already. -/
def stringForm : TextForm String where
  print text := text
  parse := some
  parse_print _ := rfl

instance (length : ℕ) : Countable (FixedBytes length) :=
  FixedBytes.toList_injective.countable

instance didCountable : Countable Did :=
  inferInstance

instance : Countable Cid := by
  let parts (cid : Cid) : Bool × ℕ × ℕ × List Byte :=
    (cid.version = .v0, cid.codec.toNat, cid.hash.code.toNat, cid.hash.digest)
  refine Function.Injective.countable (f := parts) ?_
  rintro ⟨version, codec, ⟨code, digest, hdigest⟩, hv0⟩
    ⟨version', codec', ⟨code', digest', hdigest'⟩, hv0'⟩ heq
  simp only [parts, Prod.mk.injEq, UInt64.toNat_inj] at heq
  obtain ⟨hversion, rfl, rfl, rfl⟩ := heq
  cases version <;> cases version' <;> simp_all

/-- The text forms that print one user and one content identifier as given. -/
noncomputable def TextForms.sample (did : Did) (didText : String) (cid : Cid)
    (cidText : String) (hdid : '#' ∉ didText.toList) (hcid : '#' ∉ cidText.toList) :
    TextForms where
  cid := .sample cid cidText hcid
  did := .sample did didText hdid
  oid := .ofInjective Oid.toHex Oid.toHex_injective
  url := .ofInjective Url.serialization Url.serialization_injective
  print_oid := rfl
  print_url := rfl

/-- The binary form of content identifiers, which can be decoded back. -/
structure CidBytes where
  toBytes : Cid → List Byte
  tryFrom : List Byte → Option Cid
  tryFrom_toBytes : ∀ cid, tryFrom (toBytes cid) = some cid

/-- Write one identifier as given, and any other as a row of zeros. -/
noncomputable def CidBytes.sample (sample : Cid) (bytes : List Byte)
    (hbytes : 0 ∉ bytes) : CidBytes :=
  let number := (exists_injective_nat Cid).choose
  let toBytes (cid : Cid) : List Byte :=
    if cid = sample then bytes else List.replicate (number cid + 1) 0
  have hnumber := (exists_injective_nat Cid).choose_spec
  have hrow : ∀ cid, List.replicate (number cid + 1) 0 ≠ bytes := by
    rintro cid rfl
    simp at hbytes
  have hinjective : Function.Injective toBytes := by
    intro left right heq
    simp only [toBytes] at heq
    split at heq <;> split at heq
    · simp_all
    · exact absurd heq.symm (hrow right)
    · exact absurd heq (hrow left)
    · exact hnumber (by simpa using congrArg List.length heq)
  { toBytes := toBytes
    tryFrom := fun found => if found = bytes then some sample else Function.partialInv toBytes found
    tryFrom_toBytes := by
      intro cid
      by_cases hcid : cid = sample
      · simp [toBytes, hcid]
      · have hne : toBytes cid ≠ bytes := by
          simpa only [toBytes, if_neg hcid] using hrow cid
        rw [if_neg hne]
        exact Function.partialInv_left hinjective cid }

end RadicleArtifact.Core
