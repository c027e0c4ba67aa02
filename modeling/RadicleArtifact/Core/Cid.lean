import RadicleArtifact.Core.Identifiers

/-!
# Content identifiers

A content identifier names bytes by their digest, with a codec that tells a
single blob from a collection of blobs.  The conversions below sit between
these identifiers and the BLAKE3 hashes the blob store is keyed by.
-/

namespace RadicleArtifact.Core

/-- Errors from CID computation and endpoint identity handling. -/
inductive Error where
  | io (message : String)
  | cid (message : String)
  | cidMismatch (expected actual : String)
  | key (message : String)
  deriving DecidableEq

namespace Error

/-- `Display` of the error. -/
def message : Error → String
  | .io text => "I/O error: " ++ text
  | .cid text => "CID error: " ++ text
  | .cidMismatch expected actual =>
      "CID mismatch: expected " ++ expected ++ ", got " ++ actual
  | .key text => "key error: " ++ text

end Error

inductive Version where
  | v0
  | v1
  deriving DecidableEq

/-- A tagged digest of at most 64 bytes. -/
structure Multihash where
  code : UInt64
  digest : List Byte
  length_digest_le : digest.length ≤ 64
  deriving DecidableEq

/-- A version 0 identifier is a dag-pb one over a SHA2-256 digest; version 1
names any codec and digest. -/
structure Cid where
  version : Version
  codec : UInt64
  hash : Multihash
  valid_v0 : version = .v0 →
    codec = 0x70 ∧ hash.code = 0x12 ∧ hash.digest.length = 32
  deriving DecidableEq

namespace Cid

def newV1 (codec : UInt64) (hash : Multihash) : Cid where
  version := .v1
  codec := codec
  hash := hash
  valid_v0 := by simp

end Cid

/-- A BLAKE3 digest. -/
abbrev Hash := FixedBytes 32

/-- BLAKE3 multihash code. -/
def hashCodeBlake3 : UInt64 := 0x1e

/-- Codec of collections: a sequence of BLAKE3 hashes. -/
def blake3HashseqCodec : UInt64 := 0x80

/-- Codec of single blobs. -/
def rawCodec : UInt64 := 0x55

inductive ArtifactKind where
  | blob
  | collection
  deriving DecidableEq

/-- Lowercase hexadecimal, as `{:x}` prints it. -/
def formatHex (value : UInt64) : String :=
  String.ofList (Nat.toDigits 16 value.toNat)

def artifactKind (cid : Cid) : Except Error ArtifactKind :=
  if cid.codec = rawCodec then .ok .blob
  else if cid.codec = blake3HashseqCodec then .ok .collection
  else .error (.cid ("unsupported CID codec: 0x" ++ formatHex cid.codec))

def ArtifactKind.codec : ArtifactKind → UInt64
  | .blob => rawCodec
  | .collection => blake3HashseqCodec

def blake3HashToCid (hash : Hash) (kind : ArtifactKind) : Cid :=
  Cid.newV1 kind.codec
    ⟨hashCodeBlake3, hash.toList, by rw [hash.length_toList]; decide⟩

def cidToBlake3Hash (cid : Cid) : Except Error Hash :=
  if cid.hash.code ≠ hashCodeBlake3 then
    .error (.cid ("expected BLAKE3 multihash (0x1e), got 0x" ++ formatHex cid.hash.code))
  else if hlength : cid.hash.digest.length = 32 then
    .ok ⟨cid.hash.digest, hlength⟩
  else
    .error (.cid ("expected 32-byte BLAKE3 digest, got " ++
      toString cid.hash.digest.length ++ " bytes"))

@[simp]
theorem artifactKind_blake3HashToCid (hash : Hash) (kind : ArtifactKind) :
    artifactKind (blake3HashToCid hash kind) = .ok kind := by
  cases kind <;> rfl

@[simp]
theorem cidToBlake3Hash_blake3HashToCid (hash : Hash) (kind : ArtifactKind) :
    cidToBlake3Hash (blake3HashToCid hash kind) = .ok hash := by
  simp [cidToBlake3Hash, blake3HashToCid, Cid.newV1, hash.length_toList]

end RadicleArtifact.Core
