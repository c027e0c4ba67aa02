import RadicleArtifact.Core.Cid
import RadicleArtifact.Library.IndexMap

/-!
# The node's blob store

The store keeps blobs by their hash.  A collection is a blob that lists the
hashes of its children: its metadata blob first, then its members.  The calls
the node makes of the store are parameters, and `Honest` says what they promise.
-/

namespace RadicleArtifact.Node

open RadicleArtifact.Core
open RadicleArtifact.Library

inductive BlobFormat where
  | raw
  | hashSeq
  deriving DecidableEq

structure HashAndFormat where
  hash : Hash
  format : BlobFormat
  deriving DecidableEq

/-- The blobs the store holds completely. -/
abbrev Blobs := Finset Hash

/-- The store: its complete blobs and its seeded tags. -/
structure Store where
  blobs : Blobs
  seeded : IndexMap (RepoId × Oid × Cid) HashAndFormat

/-- The completeness checks of the blob store, each of which may fail. -/
structure Iroh where
  /-- `blobs().has(hash)` -/
  has : Blobs → Hash → Except String Bool
  /-- `remote().local(haf)`, then `is_complete()` -/
  isComplete : Blobs → HashAndFormat → Except String Bool

/-- The blobs of the content: the root and, for a hash sequence, the children
its bytes list. -/
def parts (children : Hash → List Hash) (content : HashAndFormat) : List Hash :=
  match content.format with
  | .raw => [content.hash]
  | .hashSeq => content.hash :: children content.hash

/-- Every blob of the content is complete. -/
def Holds (children : Hash → List Hash) (blobs : Blobs) (content : HashAndFormat) : Prop :=
  ∀ part ∈ parts children content, part ∈ blobs

instance (children : Hash → List Hash) (blobs : Blobs) (content : HashAndFormat) :
    Decidable (Holds children blobs content) :=
  inferInstanceAs (Decidable (∀ part ∈ parts children content, part ∈ blobs))

theorem root_mem_parts (children : Hash → List Hash) (content : HashAndFormat) :
    content.hash ∈ parts children content := by
  rw [parts]
  split <;> simp

/-- `has` answers for the one blob, `isComplete` for all of the content. -/
structure Iroh.Honest (iroh : Iroh) (children : Hash → List Hash) : Prop where
  has : ∀ blobs hash, iroh.has blobs hash = .ok (decide (hash ∈ blobs))
  isComplete : ∀ blobs content,
    iroh.isComplete blobs content = .ok (decide (Holds children blobs content))

/-- A store whose checks never fail. -/
def Iroh.honest (children : Hash → List Hash) : Iroh where
  has blobs hash := .ok (decide (hash ∈ blobs))
  isComplete blobs content := .ok (decide (Holds children blobs content))

theorem Iroh.honest_honest (children : Hash → List Hash) :
    (Iroh.honest children).Honest children where
  has _ _ := rfl
  isComplete _ _ := rfl

end RadicleArtifact.Node
