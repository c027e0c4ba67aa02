import RadicleArtifact.Core.ContentId
import RadicleArtifact.Node.Fetch

/-!
# Importing a directory

The store keeps a blob under the hash of its bytes.  A directory is imported file by file,
in the order of the walk, and then as the two blobs of its collection.  What the blob store
answers about a blob or a collection is a parameter, and `Lawful` says what it promises.
-/

namespace RadicleArtifact.Node

open RadicleArtifact.Core
open RadicleArtifact.Library
open RadicleArtifact.Library.Utf8 (OsString)

/-- The complete blobs of a store, each under the hash of its bytes. -/
structure BlobStore (blake3 : Blake3) where
  bytes : Hash → Option (List UInt8)
  verified : ∀ hash contents, bytes hash = some contents → blake3 contents = hash

namespace BlobStore

variable {blake3 : Blake3} {store after later : BlobStore blake3} {messages : Set (List UInt8)}
  {contents : List UInt8} {hash : Hash}

/-- The byte strings that are blobs of the store. -/
def held (store : BlobStore blake3) : Set (List UInt8) :=
  {contents | ∃ hash, store.bytes hash = some contents}

/-- A store without blobs. -/
def empty (blake3 : Blake3) : BlobStore blake3 where
  bytes _ := none
  verified _ _ hbytes := by contradiction

/-- Add a blob, unless there is one under its hash. -/
def add (store : BlobStore blake3) (contents : List UInt8) : BlobStore blake3 where
  bytes hash := (store.bytes hash).or (if hash = blake3 contents then some contents else none)
  verified hash found hfound := by
    rcases Option.or_eq_some_iff.mp hfound with hold | ⟨-, hnew⟩
    · exact store.verified hash found hold
    · obtain ⟨hhash, hsame⟩ := Option.ite_none_right_eq_some.mp hnew
      rw [hhash, Option.some.inj hsame]

/-- `Collection::store`: the metadata blob and the root blob; the hash of the root. -/
def addCollection (store : BlobStore blake3) (entries : List (String × Hash)) :
    BlobStore blake3 × Hash :=
  ((store.add (collectionMeta (entries.map Prod.fst))).add (collectionRootBlob blake3 entries),
    blake3 (collectionRootBlob blake3 entries))

/-- Every blob of one store is a blob of the other. -/
def Extends (store after : BlobStore blake3) : Prop :=
  ∀ hash contents, store.bytes hash = some contents → after.bytes hash = some contents

theorem Extends.refl (store : BlobStore blake3) : Extends store store := fun _ _ hbytes => hbytes

theorem Extends.trans (hfirst : Extends store after) (hsecond : Extends after later) :
    Extends store later :=
  fun hash contents hbytes => hsecond hash contents (hfirst hash contents hbytes)

theorem bytes_add_iff {found : List UInt8} :
    (store.add contents).bytes hash = some found ↔
      store.bytes hash = some found ∨
        store.bytes hash = none ∧ hash = blake3 contents ∧ contents = found := by
  rw [add, Option.or_eq_some_iff, Option.ite_none_right_eq_some, Option.some.injEq]

theorem extends_add (store : BlobStore blake3) (contents : List UInt8) :
    Extends store (store.add contents) := by
  intro hash found hfound
  exact bytes_add_iff.mpr (.inl hfound)

theorem held_add (store : BlobStore blake3) (contents : List UInt8) :
    (store.add contents).held ⊆ insert contents store.held := by
  intro found hfound
  obtain ⟨hash, hbytes⟩ := hfound
  rcases bytes_add_iff.mp hbytes with hold | ⟨-, -, hsame⟩
  · exact .inr ⟨hash, hold⟩
  · exact .inl hsame.symm

/-- Where the hash tells the blobs apart, a blob that was added is there. -/
theorem bytes_add (hblake3 : Set.InjOn blake3 messages) (hheld : store.held ⊆ messages)
    (hcontents : contents ∈ messages) :
    (store.add contents).bytes (blake3 contents) = some contents := by
  apply bytes_add_iff.mpr
  cases hbytes : store.bytes (blake3 contents) with
  | none => exact .inr ⟨rfl, rfl, rfl⟩
  | some found =>
      have hhash := store.verified _ _ hbytes
      exact .inl (congrArg some (hblake3 (hheld ⟨_, hbytes⟩) hcontents hhash))

end BlobStore

/-- What the store knows of a blob. -/
inductive BlobStatus where
  | complete (size : ℕ)
  | incomplete (size : Option ℕ)
  | notFound

/-- The questions the node asks the blob store. -/
structure IrohStore (blake3 : Blake3) where
  /-- `blobs().status(hash)` -/
  status : BlobStore blake3 → Hash → Except String BlobStatus
  /-- `Collection::load` -/
  load : BlobStore blake3 → Hash → Except String (List (String × Hash))

/-- A blob that is there is complete, and a collection that was stored is loaded as it was. -/
structure IrohStore.Lawful {blake3 : Blake3} (iroh : IrohStore blake3) : Prop where
  status : ∀ store hash contents, store.bytes hash = some contents →
    iroh.status store hash = .ok (.complete contents.length)
  load : ∀ store entries,
    store.bytes (blake3 (collectionMeta (entries.map Prod.fst))) =
        some (collectionMeta (entries.map Prod.fst)) →
      store.bytes (blake3 (collectionRootBlob blake3 entries)) =
          some (collectionRootBlob blake3 entries) →
        iroh.load store (blake3 (collectionRootBlob blake3 entries)) = .ok entries

namespace IrohStore

variable {blake3 : Blake3}

/-- The blobs of a collection are there, under its root hash. -/
def Stores (store : BlobStore blake3) (hash : Hash) (entries : List (String × Hash)) : Prop :=
  hash = blake3 (collectionRootBlob blake3 entries) ∧
    store.bytes (blake3 (collectionMeta (entries.map Prod.fst))) =
        some (collectionMeta (entries.map Prod.fst)) ∧
      store.bytes (blake3 (collectionRootBlob blake3 entries)) =
        some (collectionRootBlob blake3 entries)

/-- A hash stands for one collection of a store. -/
theorem Stores.unique {store : BlobStore blake3} {hash : Hash} {left right : List (String × Hash)}
    (hleft : Stores store hash left) (hright : Stores store hash right) : left = right := by
  obtain ⟨rfl, hnames, hroot⟩ := hleft
  obtain ⟨hhash, hother, hlater⟩ := hright
  rw [← hhash, hroot] at hlater
  obtain ⟨hmeta, hhashes⟩ := (collectionRootBlob_eq_iff blake3).mp (Option.some.inj hlater)
  rw [← hmeta, hnames] at hother
  have hfirst := collectionMeta_injective (Option.some.inj hother)
  rw [← List.zip_unzip left, ← List.zip_unzip right, List.unzip_eq_map, List.unzip_eq_map]
  exact congrArg₂ List.zip hfirst hhashes

open Classical in
/-- A blob store that answers by what it stores. -/
noncomputable def stored (blake3 : Blake3) : IrohStore blake3 where
  status store hash :=
    .ok (match store.bytes hash with
      | some contents => .complete contents.length
      | none => .notFound)
  load store hash :=
    if hentries : ∃ entries, Stores store hash entries then .ok hentries.choose
    else .error "blob not found"

theorem lawful_stored (blake3 : Blake3) : (stored blake3).Lawful where
  status store hash contents hbytes := by
    rw [stored]
    simp only [hbytes]
  load store entries hnames hroot := by
    have hstores : Stores store (blake3 (collectionRootBlob blake3 entries)) entries :=
      ⟨rfl, hnames, hroot⟩
    have hexists : ∃ entries', Stores store (blake3 (collectionRootBlob blake3 entries)) entries' :=
      ⟨entries, hstores⟩
    rw [stored]
    simp only [dif_pos hexists]
    rw [hexists.choose_spec.unique hstores]

end IrohStore

/-! ## Sizes -/

section Size

variable {blake3 : Blake3} (iroh : IrohStore blake3) (store : BlobStore blake3)

def blobSize (hash : Hash) : ℕ :=
  match iroh.status store hash with
  | .ok (.complete size) => size
  | .ok (.incomplete size) => size.getD 0
  | _ => 0

/-- Stored byte total: the size of a blob, or the sum over the members of a collection. -/
def artifactSizeFor (cid : Cid) (hash : Hash) : ℕ :=
  match artifactKind cid with
  | .error _ => 0
  | .ok .blob => blobSize iroh store hash
  | .ok .collection =>
      match iroh.load store hash with
      | .error _ => 0
      | .ok members =>
          members.foldl (fun total member => saturatingAdd total (blobSize iroh store member.2)) 0

end Size

/-! ## The import -/

/-- What fails in an import. -/
structure ImportFaults where
  walk : Option String
  /-- By the position of the file in the walk. -/
  file : ℕ → Option String
  collection : Option String

def ImportFaults.none : ImportFaults := ⟨.none, fun _ => .none, .none⟩

section Import

variable {blake3 : Blake3} (faults : ImportFaults) (cidText : Cid → String)

/-- Import the files one after the other, from the given position on. -/
def importFiles : ℕ → BlobStore blake3 → List (String × List UInt8) →
    BlobStore blake3 × Except ShareError (List (String × Hash))
  | _, store, [] => (store, .ok [])
  | index, store, (name, contents) :: files =>
      match faults.file index with
      | some err => (store, .error (.iroh ("import file " ++ name ++ ": " ++ err)))
      | none =>
          match importFiles (index + 1) (store.add contents) files with
          | (after, .error err) => (after, .error err)
          | (after, .ok pairs) => (after, .ok ((name, blake3 contents) :: pairs))

/-- Import a directory as a collection and verify that it matches the expected id. -/
def importCollection (store : BlobStore blake3) (tree : FileTree OsString (List UInt8))
    (expected : Cid) : BlobStore blake3 × Except ShareError Hash :=
  match faults.walk with
  | some err => (store, .error (.io err))
  | none =>
      match importFiles faults 0 store (canonicalWalk tree) with
      | (after, .error err) => (after, .error err)
      | (after, .ok pairs) =>
          match faults.collection with
          | some err => (after, .error (.iroh ("store collection: " ++ err)))
          | none =>
              let (stored, hash) := after.addCollection pairs
              let actual := blake3HashToCid hash .collection
              if actual ≠ expected then
                (stored, .error (.cidMismatch (cidText expected) (cidText actual)))
              else (stored, .ok hash)

end Import

/-! ## What an import leaves -/

section Stored

variable {blake3 : Blake3} {messages : Set (List UInt8)} {store after : BlobStore blake3}

/-- The store has grown, by nothing but the messages. -/
structure Grown (messages : Set (List UInt8)) (store after : BlobStore blake3) : Prop where
  kept : BlobStore.Extends store after
  held : after.held ⊆ messages

theorem Grown.of_add (hheld : store.held ⊆ messages) {contents : List UInt8}
    (hcontents : contents ∈ messages) : Grown messages store (store.add contents) :=
  ⟨BlobStore.extends_add store contents,
    (BlobStore.held_add store contents).trans (Set.insert_subset hcontents hheld)⟩

/-- Without faults, every file is stored under its hash. -/
theorem importFiles_none (hblake3 : Set.InjOn blake3 messages) (hheld : store.held ⊆ messages)
    {files : List (String × List UInt8)} (hfiles : ∀ file ∈ files, file.2 ∈ messages)
    (index : ℕ) :
    ∃ after, importFiles .none index store files =
        (after, .ok (files.map fun file => (file.1, blake3 file.2))) ∧
      Grown messages store after ∧
        ∀ file ∈ files, after.bytes (blake3 file.2) = some file.2 := by
  induction files generalizing index store with
  | nil => exact ⟨store, rfl, ⟨.refl store, hheld⟩, by simp⟩
  | cons file files ih =>
      obtain ⟨name, contents⟩ := file
      obtain ⟨hcontents, hrest⟩ := List.forall_mem_cons.mp hfiles
      have hadded := Grown.of_add hheld hcontents
      obtain ⟨after, himport, hgrown, hstored⟩ := ih hadded.held hrest (index + 1)
      refine ⟨after, ?_, ⟨hadded.kept.trans hgrown.kept, hgrown.held⟩, ?_⟩
      · rw [ImportFaults.none] at himport ⊢
        rw [importFiles, himport, List.map_cons]
      · have hfile := BlobStore.bytes_add hblake3 hheld hcontents
        exact List.forall_mem_cons.mpr ⟨hgrown.kept _ _ hfile, hstored⟩

/-- The files are in the store, and the collection that lists them. -/
structure HoldsFiles (store : BlobStore blake3) (files : List (String × List UInt8)) : Prop where
  contents : ∀ file ∈ files, store.bytes (blake3 file.2) = some file.2
  names : store.bytes (blake3 (collectionMeta (files.map Prod.fst))) =
    some (collectionMeta (files.map Prod.fst))
  root : store.bytes
      (blake3 (collectionRootBlob blake3 (files.map fun file => (file.1, blake3 file.2)))) =
    some (collectionRootBlob blake3 (files.map fun file => (file.1, blake3 file.2)))

/-- The hash of the collection of a directory. -/
def rootHash (blake3 : Blake3) (tree : FileTree OsString (List UInt8)) : Hash :=
  blake3 (collectionRootBlob blake3 (walkEntries blake3 tree))

theorem computeContentId_eq_rootHash (tree : FileTree OsString (List UInt8)) :
    computeContentId blake3 tree = blake3HashToCid (rootHash blake3 tree) .collection := rfl

/-- Storing a collection adds its two blobs. -/
theorem holdsFiles_addCollection (hblake3 : Set.InjOn blake3 messages)
    (hheld : store.held ⊆ messages) {files : List (String × List UInt8)}
    (hfiles : ∀ file ∈ files, store.bytes (blake3 file.2) = some file.2)
    (hcollection : collectionMessages blake3 (files.map fun file => (file.1, blake3 file.2)) ⊆
      messages) :
    HoldsFiles (store.addCollection (files.map fun file => (file.1, blake3 file.2))).1 files := by
  have hnames : (files.map fun file => (file.1, blake3 file.2)).map Prod.fst =
      files.map Prod.fst := by simp
  rw [collectionMessages, hnames, Set.insert_subset_iff, Set.singleton_subset_iff] at hcollection
  obtain ⟨hmeta, hroot⟩ := hcollection
  have hfirst := Grown.of_add hheld hmeta
  have hsecond := Grown.of_add hfirst.held hroot
  rw [BlobStore.addCollection, hnames]
  exact {
    contents := fun file hfile => hsecond.kept _ _ (hfirst.kept _ _ (hfiles file hfile))
    names := hsecond.kept _ _ (BlobStore.bytes_add hblake3 hheld hmeta)
    root := BlobStore.bytes_add hblake3 hfirst.held hroot }

/-- A directory is imported under its content id. -/
theorem importCollection_none {tree : FileTree OsString (List UInt8)} (cidText : Cid → String)
    (hblake3 : Set.InjOn blake3 (store.held ∪ contentMessages blake3 tree)) :
    ∃ after, importCollection .none cidText store tree (computeContentId blake3 tree) =
        (after, .ok (rootHash blake3 tree)) ∧ HoldsFiles after (canonicalWalk tree) := by
  have hlisted := FileTree.Reordered.refl tree
  have hfiles : ∀ file ∈ canonicalWalk tree,
      file.2 ∈ store.held ∪ contentMessages blake3 tree :=
    fun file hfile => .inr (contents_mem_contentMessages hlisted hfile)
  have hcollection : collectionMessages blake3 (walkEntries blake3 tree) ⊆
      store.held ∪ contentMessages blake3 tree :=
    (collectionMessages_subset hlisted).trans Set.subset_union_right
  obtain ⟨imported, himport, hgrown, hstored⟩ :=
    importFiles_none hblake3 Set.subset_union_left hfiles 0
  refine ⟨_, ?_, holdsFiles_addCollection hblake3 hgrown.held hstored hcollection⟩
  rw [importCollection, himport]
  exact if_neg (not_not.mpr rfl)

end Stored

/-- An empty store holds nothing to collide with. -/
theorem injOn_held_empty {blake3 : Blake3} {messages : Set (List UInt8)}
    (hblake3 : Set.InjOn blake3 messages) :
    Set.InjOn blake3 ((BlobStore.empty blake3).held ∪ messages) := by
  apply hblake3.mono
  rintro message (⟨hash, hbytes⟩ | hmessage)
  · contradiction
  · exact hmessage

/-! ## What a seeded collection answers -/

section Answers

variable {blake3 : Blake3} {iroh : IrohStore blake3} {store : BlobStore blake3}
  {tree : FileTree OsString (List UInt8)}

theorem blobSize_eq (hiroh : iroh.Lawful) {hash : Hash} {contents : List UInt8}
    (hbytes : store.bytes hash = some contents) :
    blobSize iroh store hash = contents.length := by
  rw [blobSize, hiroh.status store hash contents hbytes]

theorem load_of_seeded (hiroh : iroh.Lawful) (hseeded : HoldsFiles store (canonicalWalk tree)) :
    iroh.load store (rootHash blake3 tree) = .ok (walkEntries blake3 tree) := by
  have hnames : (walkEntries blake3 tree).map Prod.fst = (canonicalWalk tree).map Prod.fst := by
    simp [walkEntries]
  exact hiroh.load store (walkEntries blake3 tree) (hnames ▸ hseeded.names) hseeded.root

/-- The size of a seeded directory is the size of what was seeded. -/
theorem artifactSizeFor_of_seeded (hiroh : iroh.Lawful) {entries : DirEntries}
    (hseeded : HoldsFiles store (canonicalWalk (.dir entries))) :
    artifactSizeFor iroh store (computeContentId blake3 (.dir entries))
        (rootHash blake3 (.dir entries)) = computeSizeFromPath (.dir entries) := by
  rw [artifactSizeFor, computeContentId_eq_rootHash, artifactKind_blake3HashToCid]
  dsimp only
  rw [load_of_seeded hiroh hseeded, computeSizeFromPath, walkEntries]
  dsimp only
  rw [List.foldl_map]
  apply List.foldl_ext
  intro total file hfile
  rw [blobSize_eq hiroh (hseeded.contents file hfile)]

end Answers

end RadicleArtifact.Node
