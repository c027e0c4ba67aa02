import RadicleArtifact.Library.Transition
import RadicleArtifact.Node.Tags

/-!
# Garbage collection beside running operations

The store collects whatever no tag reaches, at any time.  A running operation holds
temporary tags: one for each file it has imported, then one for the root of the
content, which it keeps until the seeded tag is set.  A temporary tag on a hash
sequence reaches the children only once the root is in the store.
-/

namespace RadicleArtifact.Node.Gc

open RadicleArtifact.Core
open RadicleArtifact.Library

/-- What a request asks for: the content, the release to seed it under, and whether
it is also written to a destination. -/
structure Job where
  rid : RepoId
  cid : Cid
  seed : Option Oid
  exports : Bool

def ofKind (hash : Hash) : ArtifactKind → HashAndFormat
  | .blob => ⟨hash, .raw⟩
  | .collection => ⟨hash, .hashSeq⟩

/-- The next step of an operation. -/
inductive Phase where
  /-- The loop of `import_collection`, with the temporary tags of the files so far. -/
  | importing (files : List Hash)
  /-- Inside `Collection::store`: the metadata blob is written. -/
  | storing (files : List Hash) (metadata : Hash)
  /-- The root has its tag, the files still have theirs. -/
  | stored (files : List Hash) (root : Hash)
  /-- The hash is compared with the expected identifier. -/
  | imported (kind : ArtifactKind) (hash : Hash)
  /-- The temporary tag of a fetch is set; `blobs().has(hash)` is next. -/
  | checking (content : HashAndFormat)
  | downloading (content : HashAndFormat)
  /-- `http_to_store` has imported a body, under a tag of its own. -/
  | comparing (content : HashAndFormat) (body : Hash)
  | exporting (content : HashAndFormat)
  /-- `tag_seeded`, or the end of a request that seeds nothing. -/
  | ready (content : HashAndFormat)
  /-- The temporary tag is about to drop. -/
  | settled (content : HashAndFormat)
  deriving DecidableEq

/-- The temporary tags alive. -/
def Phase.held : Phase → List HashAndFormat
  | .importing files => files.map (⟨·, .raw⟩)
  | .storing files metadata => (metadata :: files).map (⟨·, .raw⟩)
  | .stored files root => ⟨root, .hashSeq⟩ :: files.map (⟨·, .raw⟩)
  | .imported kind hash => [ofKind hash kind]
  | .comparing content body => [content, ⟨body, .raw⟩]
  | .checking content | .downloading content | .exporting content | .ready content
  | .settled content => [content]

structure Operation where
  job : Job
  phase : Phase
  /-- The blobs of the artifact that were in the store when the temporary tag was
  set, and those imported or downloaded since. -/
  gathered : List Hash

structure World (Id : Type) where
  blobs : Blobs
  seeded : Seeded
  /-- Persistent tags that are not seeded ones. -/
  others : List HashAndFormat
  running : IndexMap Id Operation
  /-- The blobs that settled operations leave to the seeded tags of an identifier, as
  long as it has had one since. -/
  kept : List (Cid × Hash)

inductive Event (Id : Type) where
  /-- `import_blob` has imported its file. -/
  | importBlob (id : Id) (job : Job) (hash : Hash)
  | startCollection (id : Id) (job : Job)
  | importFile (id : Id) (hash : Hash)
  | storeMetadata (id : Id) (hash : Hash)
  | storeRoot (id : Id) (hash : Hash)
  /-- A fetch sets its temporary tag. -/
  | startFetch (id : Id) (job : Job)
  /-- A provider delivers a blob. -/
  | receive (id : Id) (hash : Hash)
  | httpImport (id : Id) (body : Hash)
  /-- The operation takes its next step. -/
  | advance (id : Id)
  /-- A failure or a disconnect drops the operation and its temporary tags. -/
  | abort (id : Id)
  | untag (triple : Triple)
  | untagAll (rid : RepoId) (cid : Cid)
  | gc

/-- Some release seeds the content. -/
def Tagged (seeded : Seeded) (cid : Cid) : Prop :=
  ∃ triple ∈ seeded.keys, triple.2.2 = cid

instance (seeded : Seeded) (cid : Cid) : Decidable (Tagged seeded cid) :=
  inferInstanceAs (Decidable (∃ triple ∈ seeded.keys, triple.2.2 = cid))

/-- The blobs a tag protects: a root that is present is expanded. -/
def reach (children : Hash → List Hash) (blobs : Blobs) (tag : HashAndFormat) : List Hash :=
  if tag.hash ∈ blobs then parts children tag else [tag.hash]

namespace World

variable {Id : Type} [DecidableEq Id] (children : Hash → List Hash) (world : World Id)

/-- The tags a collection marks from. -/
def roots : List HashAndFormat :=
  world.seeded.values ++ world.others ++
    world.running.values.flatMap fun operation => operation.phase.held

def collect : World Id :=
  { world with
    blobs := world.blobs.filter fun hash =>
      hash ∈ world.roots.flatMap (reach children world.blobs) }

def enter (id : Id) (operation : Operation) : World Id :=
  { world with running := world.running.insert id operation }

def goto (id : Id) (operation : Operation) (phase : Phase) : World Id :=
  world.enter id { operation with phase := phase }

def add (hash : Hash) : World Id :=
  { world with blobs := insert hash world.blobs }

def finish (id : Id) : World Id :=
  { world with running := world.running.shiftRemove id }

/-- Write the seeded tags.  What they no longer cover is kept no longer. -/
def retag (seeded : Seeded) (kept : List (Cid × Hash)) : World Id :=
  { world with seeded := seeded, kept := kept.filter fun entry => Tagged seeded entry.1 }

def settle (id : Id) (operation : Operation) (content : HashAndFormat) (seeded : Seeded) :
    World Id :=
  (world.retag seeded (operation.gathered.map (operation.job.cid, ·) ++ world.kept)).goto id
    operation (.settled content)

end World

/-- After a fetch, a `Download` exports before anything is tagged. -/
def Job.fetched (job : Job) (content : HashAndFormat) : Phase :=
  if job.exports then .exporting content else .ready content

namespace World

variable {Id : Type} [DecidableEq Id] (children : Hash → List Hash) (world : World Id)

def advance (id : Id) (operation : Operation) : Option (World Id) :=
  match operation.phase with
  | .importing _ => none
  | .storing _ _ => none
  | .stored _ root => some (world.goto id operation (.imported .collection root))
  | .imported kind hash =>
      if blake3HashToCid hash kind = operation.job.cid then
        some (world.goto id operation (.ready (ofKind hash kind)))
      else some (world.finish id)
  | .checking content =>
      if content.hash ∈ world.blobs then
        some (world.goto id operation (operation.job.fetched content))
      else some (world.goto id operation (.downloading content))
  | .downloading content =>
      if Holds children world.blobs content then
        some (world.goto id operation (operation.job.fetched content))
      else some (world.finish id)
  | .comparing content _ => some (world.goto id operation (.downloading content))
  | .exporting content => some (world.goto id operation (.ready content))
  | .ready content =>
      match operation.job.seed with
      | none => some (world.settle id operation content world.seeded)
      | some release =>
          match world.seeded.tag (operation.job.rid, release, operation.job.cid)
              content.hash with
          | .error _ => some (world.finish id)
          | .ok seeded => some (world.settle id operation content seeded)
  | .settled _ => some (world.finish id)

/-- A blob arrives for an operation, which goes on in the given phase. -/
def gather (id : Id) (operation : Operation) (hash : Hash) (phase : Phase) : World Id :=
  (world.add hash).enter id
    { operation with phase := phase, gathered := hash :: operation.gathered }

/-- A provider sends the root, and children once the root is there. -/
def Serves (content : HashAndFormat) (hash : Hash) : Prop :=
  hash = content.hash ∨
    content.format = .hashSeq ∧ content.hash ∈ world.blobs ∧ hash ∈ children content.hash

instance (content : HashAndFormat) (hash : Hash) :
    Decidable (world.Serves children content hash) :=
  inferInstanceAs (Decidable (_ ∨ _ ∧ _ ∧ _))

/-- What arrives from outside for an operation: a blob, its data or a body. -/
def deliver (id : Id) (operation : Operation) : Event Id → Option (World Id)
  | .importFile _ hash =>
      match operation.phase with
      | .importing files =>
          some (world.gather id operation hash (.importing (files ++ [hash])))
      | _ => none
  | .storeMetadata _ hash =>
      match operation.phase with
      | .importing files => some (world.gather id operation hash (.storing files hash))
      | _ => none
  | .storeRoot _ hash =>
      match operation.phase with
      | .storing files metadata =>
          if children hash = metadata :: files then
            some (world.gather id operation hash (.stored files hash))
          else none
      | _ => none
  | .receive _ hash =>
      match operation.phase with
      | .downloading content =>
          if world.Serves children content hash then
            some (world.gather id operation hash (.downloading content))
          else none
      | _ => none
  | .httpImport _ body =>
      match operation.phase with
      | .downloading content =>
          if content.hash = body then
            some (world.gather id operation body (.comparing content body))
          else some ((world.add body).goto id operation (.comparing content body))
      | _ => none
  | _ => none

/-- The request is new. -/
def start (id : Id) (next : World Id) : Option (World Id) :=
  match world.running.get? id with
  | none => some next
  | some _ => none

def step (event : Event Id) : Option (World Id) :=
  match event with
  | .importBlob id job hash =>
      world.start id (world.gather id ⟨job, .importing [], []⟩ hash (.imported .blob hash))
  | .startCollection id job => world.start id (world.enter id ⟨job, .importing [], []⟩)
  | .startFetch id job =>
      match hashAndFormat job.cid with
      | .error _ => none
      | .ok content =>
          world.start id (world.enter id ⟨job, .checking content,
            (parts children content).filter (· ∈ world.blobs)⟩)
  | .importFile id _ | .storeMetadata id _ | .storeRoot id _ | .receive id _
  | .httpImport id _ =>
      (world.running.get? id).bind fun operation => world.deliver children id operation event
  | .advance id =>
      (world.running.get? id).bind fun operation => world.advance children id operation
  | .abort id => some (world.finish id)
  | .untag triple => some (world.retag (world.seeded.untag triple).2 world.kept)
  | .untagAll rid cid => some (world.retag (world.seeded.untagAll rid cid).2 world.kept)
  | .gc => some (world.collect children)

/-- No operation runs, and every seeded tag points at the content of its identifier. -/
def Rests : Prop :=
  world.running = ∅ ∧ world.kept = [] ∧
    ∀ triple value, world.seeded.get? triple = some value →
      hashAndFormat triple.2.2 = .ok value

end World

/-- Everything gathered is in the store. -/
def Operation.Intact (operation : Operation) (blobs : Blobs) : Prop :=
  ∀ hash ∈ operation.gathered, hash ∈ blobs

instance (operation : Operation) (blobs : Blobs) : Decidable (operation.Intact blobs) :=
  inferInstanceAs (Decidable (∀ hash ∈ operation.gathered, hash ∈ blobs))

/-- The phases in which everything gathered is in the store. -/
def Phase.Holding : Phase → Prop
  | .checking _ | .downloading _ | .comparing _ _ => False
  | _ => True

namespace World

variable {Id : Type} [DecidableEq Id] (world : World Id)

/-- Nothing gathered is gone: not when an operation has its content, exports it or
tags it, and not while a seeded tag for the content remains. -/
def Spared : Prop :=
  (∀ id operation, world.running.get? id = some operation → operation.phase.Holding →
    operation.Intact world.blobs) ∧
  ∀ entry ∈ world.kept, entry.2 ∈ world.blobs

/-- A fetch that finds the root in the store, when its temporary tag was set without,
finds the other blobs that were there then. -/
def FindsGathered : Event Id → Prop
  | .advance id =>
      match world.running.get? id with
      | some operation =>
          match operation.phase with
          | .checking content =>
              content.hash ∈ world.blobs → content.hash ∉ operation.gathered →
                operation.Intact world.blobs
          | _ => True
      | none => True
  | _ => True

instance (event : Event Id) : Decidable (world.FindsGathered event) := by
  cases event with
  | advance id =>
      rw [FindsGathered]
      cases world.running.get? id with
      | some operation =>
          cases hphase : operation.phase <;> simp only [hphase] <;> infer_instance
      | none => exact .isTrue trivial
  | _ => exact .isTrue trivial

end World

/-! ## What a collection leaves -/

section Collect

variable {children : Hash → List Hash} {blobs later : Blobs} {content : HashAndFormat}

theorem reach_of_mem {hash : Hash} (hroot : content.hash ∈ blobs)
    (hhash : hash ∈ parts children content) : hash ∈ reach children blobs content := by
  rw [reach, if_pos hroot]
  exact hhash

theorem mem_reach_self (children : Hash → List Hash) (blobs : Blobs) (hash : Hash) :
    hash ∈ reach children blobs ⟨hash, .raw⟩ := by
  rw [reach]
  split <;> simp [parts]

/-- The blobs gathered for the content are in the store, its root among what is there. -/
structure Covers (children : Hash → List Hash) (blobs : Blobs) (content : HashAndFormat)
    (gathered : List Hash) : Prop where
  root : content.hash ∈ blobs
  parts : ∀ hash ∈ gathered, hash ∈ parts children content
  blobs : ∀ hash ∈ gathered, hash ∈ blobs

/-- What an operation may rely on in each phase. -/
def Operation.Sound (children : Hash → List Hash) (blobs : Blobs) (operation : Operation) :
    Prop :=
  match operation.phase with
  | .importing files => (∀ hash ∈ files, hash ∈ blobs) ∧ operation.gathered ⊆ files
  | .storing files metadata =>
      (∀ hash ∈ metadata :: files, hash ∈ blobs) ∧ operation.gathered ⊆ metadata :: files
  | .stored _ root => Covers children blobs ⟨root, .hashSeq⟩ operation.gathered
  | .imported kind hash => Covers children blobs (ofKind hash kind) operation.gathered
  | .checking content =>
      hashAndFormat operation.job.cid = .ok content ∧
        (∀ hash ∈ operation.gathered, hash ∈ parts children content) ∧
        (content.hash ∈ operation.gathered → ∀ hash ∈ operation.gathered, hash ∈ blobs)
  | .downloading content | .comparing content _ =>
      hashAndFormat operation.job.cid = .ok content ∧
        ∀ hash ∈ operation.gathered, hash ∈ parts children content
  | .exporting content | .ready content | .settled content =>
      hashAndFormat operation.job.cid = .ok content ∧
        Covers children blobs content operation.gathered

theorem Covers.mono {gathered : List Hash} (hcovers : Covers children blobs content gathered)
    (hsubset : blobs ⊆ later) : Covers children later content gathered where
  root := hsubset hcovers.root
  parts := hcovers.parts
  blobs hash hhash := hsubset (hcovers.blobs hash hhash)

theorem Covers.collect {gathered : List Hash} (hcovers : Covers children blobs content gathered)
    (hkept : ∀ hash ∈ blobs, hash ∈ reach children blobs content → hash ∈ later) :
    Covers children later content gathered where
  root := hkept _ hcovers.root (reach_of_mem hcovers.root (root_mem_parts children content))
  parts := hcovers.parts
  blobs hash hhash := hkept hash (hcovers.blobs hash hhash)
    (reach_of_mem hcovers.root (hcovers.parts hash hhash))

theorem Covers.single {gathered : List Hash}
    (hcovers : Covers children blobs content gathered) {hash : Hash}
    (hhash : hash ∈ gathered) : Covers children blobs content [hash] where
  root := hcovers.root
  parts found hfound := by
    rw [List.mem_singleton.mp hfound]
    exact hcovers.parts hash hhash
  blobs found hfound := by
    rw [List.mem_singleton.mp hfound]
    exact hcovers.blobs hash hhash

/-- An operation loses nothing to new blobs. -/
theorem Operation.Sound.mono {operation : Operation}
    (hsound : operation.Sound children blobs) (hsubset : blobs ⊆ later) :
    operation.Sound children later := by
  obtain ⟨job, phase, gathered⟩ := operation
  cases phase with
  | importing files => exact ⟨fun hash hhash => hsubset (hsound.1 hash hhash), hsound.2⟩
  | storing files metadata =>
      exact ⟨fun hash hhash => hsubset (hsound.1 hash hhash), hsound.2⟩
  | stored files root => exact Covers.mono hsound hsubset
  | imported kind hash => exact Covers.mono hsound hsubset
  | checking content =>
      exact ⟨hsound.1, hsound.2.1, fun hroot hash hhash => hsubset (hsound.2.2 hroot hash hhash)⟩
  | downloading content => exact hsound
  | comparing content body => exact hsound
  | exporting content => exact ⟨hsound.1, hsound.2.mono hsubset⟩
  | ready content => exact ⟨hsound.1, hsound.2.mono hsubset⟩
  | settled content => exact ⟨hsound.1, hsound.2.mono hsubset⟩

/-- An operation loses nothing to a collection that spares what its temporary tags
reach. -/
theorem Operation.Sound.collect {operation : Operation}
    (hsound : operation.Sound children blobs)
    (hkept : ∀ tag ∈ operation.phase.held, ∀ hash ∈ blobs,
      hash ∈ reach children blobs tag → hash ∈ later) :
    operation.Sound children later := by
  obtain ⟨job, phase, gathered⟩ := operation
  have hfile : ∀ hash, ⟨hash, .raw⟩ ∈ phase.held → hash ∈ blobs → hash ∈ later :=
    fun hash hheld hhash => hkept _ hheld hash hhash (mem_reach_self children blobs hash)
  cases phase with
  | importing files =>
      refine ⟨fun hash hhash => hfile hash ?_ (hsound.1 hash hhash), hsound.2⟩
      exact List.mem_map_of_mem hhash
  | storing files metadata =>
      refine ⟨fun hash hhash => hfile hash ?_ (hsound.1 hash hhash), hsound.2⟩
      exact List.mem_map_of_mem hhash
  | stored files root => exact Covers.collect hsound (hkept _ List.mem_cons_self)
  | imported kind hash => exact Covers.collect hsound (hkept _ List.mem_cons_self)
  | checking content =>
      refine ⟨hsound.1, hsound.2.1, fun hroot hash hhash => ?_⟩
      have hthere : content.hash ∈ blobs := hsound.2.2 hroot _ hroot
      exact hkept _ List.mem_cons_self hash (hsound.2.2 hroot hash hhash)
        (reach_of_mem hthere (hsound.2.1 hash hhash))
  | downloading content => exact hsound
  | comparing content body => exact hsound
  | exporting content => exact ⟨hsound.1, hsound.2.collect (hkept _ List.mem_cons_self)⟩
  | ready content => exact ⟨hsound.1, hsound.2.collect (hkept _ List.mem_cons_self)⟩
  | settled content => exact ⟨hsound.1, hsound.2.collect (hkept _ List.mem_cons_self)⟩

end Collect

/-- A blob that a settled operation has left to the seeded tags of an identifier. -/
def Left (children : Hash → List Hash) (blobs : Blobs) (seeded : Seeded) (cid : Cid)
    (hash : Hash) : Prop :=
  Tagged seeded cid ∧ ∃ content, hashAndFormat cid = .ok content ∧
    Covers children blobs content [hash]

namespace World

section Invariant

variable {Id : Type} [DecidableEq Id] {children : Hash → List Hash} {world next : World Id}
  {id : Id} {operation : Operation} {content : HashAndFormat}

structure Sound (children : Hash → List Hash) (world : World Id) : Prop where
  running : ∀ id operation, world.running.get? id = some operation →
    operation.Sound children world.blobs
  seeded : ∀ triple value, world.seeded.get? triple = some value →
    hashAndFormat triple.2.2 = .ok value
  kept : ∀ entry ∈ world.kept, Left children world.blobs world.seeded entry.1 entry.2

theorem Rests.sound (hrests : world.Rests) : world.Sound children where
  running id operation hoperation := by
    rw [hrests.1] at hoperation
    contradiction
  seeded := hrests.2.2
  kept entry hentry := by
    rw [hrests.2.1] at hentry
    contradiction

theorem Sound.enter (hsound : world.Sound children)
    (hoperation : operation.Sound children world.blobs) :
    (world.enter id operation).Sound children where
  running other found hfound := by
    rw [World.enter, IndexMap.get?_insert] at hfound
    split at hfound
    · exact Option.some.inj hfound ▸ hoperation
    · exact hsound.running other found hfound
  seeded := hsound.seeded
  kept := hsound.kept

theorem Sound.goto (hsound : world.Sound children) {phase : Phase}
    (hphase : ({ operation with phase := phase } : Operation).Sound children world.blobs) :
    (world.goto id operation phase).Sound children :=
  hsound.enter hphase

theorem Sound.finish (hsound : world.Sound children) (id : Id) :
    (world.finish id).Sound children where
  running other found hfound := by
    rw [World.finish, IndexMap.get?_shiftRemove] at hfound
    split at hfound
    · contradiction
    · exact hsound.running other found hfound
  seeded := hsound.seeded
  kept := hsound.kept

theorem Sound.add (hsound : world.Sound children) (hash : Hash) :
    (world.add hash).Sound children where
  running other found hfound :=
    (hsound.running other found hfound).mono (Finset.subset_insert hash world.blobs)
  seeded := hsound.seeded
  kept entry hentry := by
    obtain ⟨htagged, content, hcontent, hcovers⟩ := hsound.kept entry hentry
    exact ⟨htagged, content, hcontent, hcovers.mono (Finset.subset_insert hash world.blobs)⟩

theorem Sound.retag (hsound : world.Sound children) {seeded : Seeded}
    {kept : List (Cid × Hash)}
    (hseeded : ∀ triple value, seeded.get? triple = some value →
      hashAndFormat triple.2.2 = .ok value)
    (hkept : ∀ entry ∈ kept, ∃ content, hashAndFormat entry.1 = .ok content ∧
      Covers children world.blobs content [entry.2]) :
    (world.retag seeded kept).Sound children where
  running := hsound.running
  seeded := hseeded
  kept entry hentry := by
    obtain ⟨hmem, htagged⟩ := List.mem_filter.mp hentry
    exact ⟨of_decide_eq_true htagged, hkept entry hmem⟩

omit [DecidableEq Id] in
/-- A collection keeps what a tag reaches. -/
theorem mem_blobs_collect {tag : HashAndFormat} (htag : tag ∈ world.roots) {hash : Hash}
    (hhash : hash ∈ world.blobs) (hreach : hash ∈ reach children world.blobs tag) :
    hash ∈ (world.collect children).blobs := by
  rw [collect, Finset.mem_filter]
  exact ⟨hhash, List.mem_flatMap.mpr ⟨tag, htag, hreach⟩⟩

omit [DecidableEq Id] in
theorem seeded_mem_roots {triple : Triple} {value : HashAndFormat}
    (hvalue : world.seeded.get? triple = some value) : value ∈ world.roots := by
  have hmem : value ∈ world.seeded.values :=
    List.mem_map_of_mem (IndexMap.get?_eq_some_iff_mem.mp hvalue)
  simp [roots, hmem]

theorem held_mem_roots (hoperation : world.running.get? id = some operation)
    {tag : HashAndFormat} (htag : tag ∈ operation.phase.held) : tag ∈ world.roots := by
  have hmem : operation ∈ world.running.values :=
    List.mem_map_of_mem (IndexMap.get?_eq_some_iff_mem.mp hoperation)
  rw [roots, List.mem_append]
  exact .inr (List.mem_flatMap.mpr ⟨operation, hmem, htag⟩)

theorem Sound.collect (hsound : world.Sound children) :
    (world.collect children).Sound children := by
  refine ⟨fun id operation hoperation => ?_, hsound.seeded, fun entry hentry => ?_⟩
  · have hfound : world.running.get? id = some operation := hoperation
    exact (hsound.running id operation hfound).collect fun _ htag _ hhash hreach =>
      mem_blobs_collect (held_mem_roots hfound htag) hhash hreach
  · obtain ⟨⟨triple, hmem, hcid⟩, content, hcontent, hcovers⟩ := hsound.kept entry hentry
    obtain ⟨value, hvalue⟩ := IndexMap.mem_keys_iff.mp hmem
    -- every tag for the identifier points at the same content
    have hsame : value = content := by
      have hfound := hsound.seeded triple value hvalue
      rw [hcid, hcontent] at hfound
      exact (Except.ok.inj hfound).symm
    rw [hsame] at hvalue
    exact ⟨⟨triple, hmem, hcid⟩, content, hcontent, hcovers.collect fun _ hhash hreach =>
      mem_blobs_collect (seeded_mem_roots hvalue) hhash hreach⟩

theorem hashAndFormat_blake3HashToCid (hash : Hash) (kind : ArtifactKind) :
    hashAndFormat (blake3HashToCid hash kind) = .ok (ofKind hash kind) := by
  rw [hashAndFormat, cidToBlake3Hash_blake3HashToCid, artifactKind_blake3HashToCid]
  cases kind <;> rfl

/-- Tagging content points the tag at it. -/
theorem tagValue_of_hashAndFormat {cid : Cid} (hcontent : hashAndFormat cid = .ok content) :
    tagValue cid content.hash = .ok content := by
  obtain ⟨hash, -, hvalue⟩ := hashAndFormat_eq_ok_iff.mp hcontent
  rwa [(kind_of_tagValue hvalue).1]

theorem Sound.settle (hsound : world.Sound children)
    (hcontent : hashAndFormat operation.job.cid = .ok content)
    (hcovers : Covers children world.blobs content operation.gathered) {seeded : Seeded}
    (hseeded : ∀ triple value, seeded.get? triple = some value →
      hashAndFormat triple.2.2 = .ok value) :
    (world.settle id operation content seeded).Sound children := by
  have hphase : ({ operation with phase := .settled content } : Operation).Sound children
      world.blobs := ⟨hcontent, hcovers⟩
  refine (hsound.retag hseeded fun entry hentry => ?_).goto hphase
  rcases List.mem_append.mp hentry with hmine | hearlier
  · obtain ⟨hash, hhash, rfl⟩ := List.mem_map.mp hmine
    exact ⟨content, hcontent, hcovers.single hhash⟩
  · exact (hsound.kept entry hearlier).2

theorem sound_fetched {blobs : Blobs} (hcontent : hashAndFormat operation.job.cid = .ok content)
    (hcovers : Covers children blobs content operation.gathered) :
    ({ operation with phase := operation.job.fetched content } : Operation).Sound children
      blobs := by
  rw [Job.fetched]
  split
  · exact ⟨hcontent, hcovers⟩
  · exact ⟨hcontent, hcovers⟩

/-- Tagging a triple under its own content keeps the tags right. -/
theorem Sound.tag (hsound : world.Sound children) {rid : RepoId} {release : Oid} {cid : Cid}
    (hcontent : hashAndFormat cid = .ok content) {seeded : Seeded}
    (htag : world.seeded.tag (rid, release, cid) content.hash = .ok seeded) :
    ∀ triple value, seeded.get? triple = some value → hashAndFormat triple.2.2 = .ok value := by
  rw [Seeded.tag, tagValue_of_hashAndFormat hcontent] at htag
  intro triple value hvalue
  rw [← Except.ok.inj htag, IndexMap.get?_insert] at hvalue
  split at hvalue
  · rename_i heq
    rw [heq, ← Option.some.inj hvalue]
    exact hcontent
  · exact hsound.seeded triple value hvalue

theorem Sound.advance (hsound : world.Sound children)
    (hoperation : world.running.get? id = some operation)
    (hfinds : world.FindsGathered (.advance id))
    (hstep : world.advance children id operation = some next) : next.Sound children := by
  have hmine := hsound.running id operation hoperation
  obtain ⟨job, phase, gathered⟩ := operation
  rw [FindsGathered, hoperation] at hfinds
  cases phase with
  | importing files => contradiction
  | storing files metadata => contradiction
  | stored files root => exact Option.some.inj hstep ▸ hsound.goto hmine
  | imported kind hash =>
      simp only [World.advance] at hstep
      split at hstep
      · rename_i hcid
        have hcontent : hashAndFormat job.cid = .ok (ofKind hash kind) := by
          rw [← hcid, hashAndFormat_blake3HashToCid]
        obtain rfl := Option.some.inj hstep
        exact hsound.goto ⟨hcontent, hmine⟩
      · exact Option.some.inj hstep ▸ hsound.finish id
  | checking content =>
      obtain ⟨hcontent, hparts, hthere⟩ := hmine
      simp only [World.advance] at hstep
      split at hstep
      · rename_i hroot
        have hblobs : ∀ hash ∈ gathered, hash ∈ world.blobs := by
          by_cases hgathered : content.hash ∈ gathered
          · exact hthere hgathered
          · exact hfinds hroot hgathered
        exact Option.some.inj hstep ▸
          hsound.goto (sound_fetched hcontent ⟨hroot, hparts, hblobs⟩)
      · obtain rfl := Option.some.inj hstep
        exact hsound.goto ⟨hcontent, hparts⟩
  | downloading content =>
      obtain ⟨hcontent, hparts⟩ := hmine
      simp only [World.advance] at hstep
      split at hstep
      · rename_i hholds
        have hroot : content.hash ∈ world.blobs := hholds _ (root_mem_parts children content)
        exact Option.some.inj hstep ▸ hsound.goto (sound_fetched hcontent
          ⟨hroot, hparts, fun hash hhash => hholds hash (hparts hash hhash)⟩)
      · exact Option.some.inj hstep ▸ hsound.finish id
  | comparing content body => exact Option.some.inj hstep ▸ hsound.goto hmine
  | exporting content => exact Option.some.inj hstep ▸ hsound.goto hmine
  | ready content =>
      obtain ⟨hcontent, hcovers⟩ := hmine
      simp only [World.advance] at hstep
      cases hseed : job.seed with
      | none =>
          simp only [hseed] at hstep
          exact Option.some.inj hstep ▸ hsound.settle hcontent hcovers hsound.seeded
      | some release =>
          simp only [hseed] at hstep
          split at hstep
          · exact Option.some.inj hstep ▸ hsound.finish id
          · rename_i seeded htag
            exact Option.some.inj hstep ▸
              hsound.settle hcontent hcovers (hsound.tag hcontent htag)
  | settled content => exact Option.some.inj hstep ▸ hsound.finish id

theorem Sound.gather (hsound : world.Sound children) {hash : Hash} {phase : Phase}
    (hphase : ({ operation with phase := phase, gathered := hash :: operation.gathered } :
      Operation).Sound children (insert hash world.blobs)) :
    (world.gather id operation hash phase).Sound children :=
  (hsound.add hash).enter hphase

theorem mem_insert_of_forall {blobs : Blobs} {hash : Hash} {hashes : List Hash}
    (hhashes : ∀ found ∈ hashes, found ∈ blobs) :
    ∀ found ∈ hash :: hashes, found ∈ insert hash blobs := by
  intro found hfound
  rcases List.mem_cons.mp hfound with rfl | hearlier
  · exact Finset.mem_insert_self found blobs
  · exact Finset.mem_insert_of_mem (hhashes found hearlier)

/-- The file joins those imported before it. -/
theorem Sound.importFile (hsound : world.Sound children) {job : Job}
    {files gathered : List Hash}
    (hmine : (⟨job, .importing files, gathered⟩ : Operation).Sound children world.blobs)
    (hash : Hash) :
    (world.gather id ⟨job, .importing files, gathered⟩ hash
      (.importing (files ++ [hash]))).Sound children := by
  have hblobs := @mem_insert_of_forall _ hash _ hmine.1
  refine hsound.gather ⟨fun found hfound => hblobs found ?_, ?_⟩
  · rcases List.mem_append.mp hfound with hearlier | hlast
    · exact List.mem_cons_of_mem hash hearlier
    · exact List.mem_singleton.mp hlast ▸ List.mem_cons_self
  · refine List.cons_subset.mpr ⟨List.mem_append_right files List.mem_cons_self, ?_⟩
    exact List.Subset.trans hmine.2 (List.subset_append_left files [hash])

/-- The root lists what was imported, so its tag covers all of it. -/
theorem Sound.storeRoot (hsound : world.Sound children) {job : Job}
    {files gathered : List Hash} {metadata hash : Hash}
    (hmine : (⟨job, .storing files metadata, gathered⟩ : Operation).Sound children world.blobs)
    (hchildren : children hash = metadata :: files) :
    (world.gather id ⟨job, .storing files metadata, gathered⟩ hash
      (.stored files hash)).Sound children := by
  refine hsound.gather ⟨Finset.mem_insert_self hash world.blobs, fun found hfound => ?_, ?_⟩
  · have hparts : parts children ⟨hash, .hashSeq⟩ = hash :: metadata :: files := by
      rw [parts, hchildren]
    rw [hparts]
    exact List.cons_subset_cons hash hmine.2 hfound
  · exact mem_insert_of_forall fun found hfound => hmine.1 found (hmine.2 hfound)

theorem Sound.receive (hsound : world.Sound children) {job : Job} {gathered : List Hash}
    (hmine : (⟨job, .downloading content, gathered⟩ : Operation).Sound children world.blobs)
    {hash : Hash} (hhash : hash ∈ parts children content) {phase : Phase}
    (hphase : phase = .downloading content ∨ phase = .comparing content hash) :
    (world.gather id ⟨job, .downloading content, gathered⟩ hash phase).Sound children := by
  have hparts : ∀ found ∈ hash :: gathered, found ∈ parts children content := by
    intro found hfound
    rcases List.mem_cons.mp hfound with rfl | hearlier
    · exact hhash
    · exact hmine.2 found hearlier
  rcases hphase with rfl | rfl
  · exact hsound.gather ⟨hmine.1, hparts⟩
  · exact hsound.gather ⟨hmine.1, hparts⟩

omit [DecidableEq Id] in
/-- A provider serves blobs of the content only. -/
theorem Serves.mem_parts {hash : Hash} (hserves : world.Serves children content hash) :
    hash ∈ parts children content := by
  rcases hserves with rfl | ⟨hformat, -, hchild⟩
  · exact root_mem_parts children content
  · rw [parts, hformat]
    exact List.mem_cons_of_mem content.hash hchild

theorem Sound.deliver (hsound : world.Sound children)
    (hoperation : world.running.get? id = some operation) {event : Event Id}
    (hstep : world.deliver children id operation event = some next) : next.Sound children := by
  have hmine := hsound.running id operation hoperation
  obtain ⟨job, phase, gathered⟩ := operation
  cases event with
  | importFile id hash =>
      cases phase with
      | importing files =>
          obtain rfl := Option.some.inj hstep
          exact hsound.importFile hmine hash
      | _ => contradiction
  | storeMetadata id hash =>
      cases phase with
      | importing files =>
          obtain rfl := Option.some.inj hstep
          refine hsound.gather ⟨mem_insert_of_forall hmine.1, ?_⟩
          exact List.cons_subset_cons hash hmine.2
      | _ => contradiction
  | storeRoot id hash =>
      cases phase with
      | storing files metadata =>
          simp only [World.deliver] at hstep
          split at hstep
          · rename_i hchildren
            obtain rfl := Option.some.inj hstep
            exact hsound.storeRoot hmine hchildren
          · contradiction
      | _ => contradiction
  | receive id hash =>
      cases phase with
      | downloading content =>
          simp only [World.deliver] at hstep
          split at hstep
          · rename_i hserves
            obtain rfl := Option.some.inj hstep
            exact hsound.receive hmine hserves.mem_parts (.inl rfl)
          · contradiction
      | _ => contradiction
  | httpImport id body =>
      cases phase with
      | downloading content =>
          simp only [World.deliver] at hstep
          split at hstep
          · rename_i hbody
            obtain rfl := Option.some.inj hstep
            exact hsound.receive hmine (hbody ▸ root_mem_parts children content) (.inr rfl)
          · obtain rfl := Option.some.inj hstep
            exact (hsound.add body).goto hmine
      | _ => contradiction
  | _ => contradiction

theorem Sound.untagged (hsound : world.Sound children) {seeded : Seeded}
    (hsubset : ∀ triple value, seeded.get? triple = some value →
      world.seeded.get? triple = some value) :
    (world.retag seeded world.kept).Sound children :=
  hsound.retag (fun triple value hvalue => hsound.seeded triple value (hsubset triple value hvalue))
    fun entry hentry => (hsound.kept entry hentry).2

theorem eq_of_start {after : World Id} (hstep : world.start id after = some next) :
    next = after := by
  rw [start] at hstep
  split at hstep
  · exact (Option.some.inj hstep).symm
  · contradiction

/-- Every step keeps the invariant when no late root hides a loss. -/
theorem Sound.step (hsound : world.Sound children) {event : Event Id}
    (hfinds : world.FindsGathered event) (hstep : world.step children event = some next) :
    next.Sound children := by
  cases event with
  | importBlob id job hash =>
      rw [eq_of_start hstep]
      refine hsound.gather ⟨Finset.mem_insert_self hash world.blobs, ?_, ?_⟩
      · exact fun found hfound => hfound
      · exact mem_insert_of_forall fun found hfound => by contradiction
  | startCollection id job =>
      rw [eq_of_start hstep]
      exact hsound.enter ⟨fun found hfound => by contradiction, List.Subset.refl _⟩
  | startFetch id job =>
      simp only [World.step] at hstep
      split at hstep
      · contradiction
      · rename_i content hcontent
        rw [eq_of_start hstep]
        refine hsound.enter ⟨hcontent, fun hash hhash => List.mem_of_mem_filter hhash, ?_⟩
        exact fun _ hash hhash => of_decide_eq_true (List.mem_filter.mp hhash).2
  | importFile id hash | storeMetadata id hash | storeRoot id hash | receive id hash
  | httpImport id body =>
      obtain ⟨operation, hoperation, hdeliver⟩ := Option.bind_eq_some_iff.mp hstep
      exact hsound.deliver hoperation hdeliver
  | advance id =>
      obtain ⟨operation, hoperation, hadvance⟩ := Option.bind_eq_some_iff.mp hstep
      exact hsound.advance hoperation hfinds hadvance
  | abort id => exact Option.some.inj hstep ▸ hsound.finish id
  | untag triple =>
      obtain rfl := Option.some.inj hstep
      refine hsound.untagged fun other value hvalue => ?_
      rw [Seeded.untag, IndexMap.get?_shiftRemove] at hvalue
      split at hvalue
      · contradiction
      · exact hvalue
  | untagAll rid cid =>
      obtain rfl := Option.some.inj hstep
      refine hsound.untagged fun other value hvalue => ?_
      rw [Seeded.untagAll, IndexMap.get?_retain_not] at hvalue
      split at hvalue
      · contradiction
      · exact hvalue
  | gc => exact Option.some.inj hstep ▸ hsound.collect

/-- What holds of every operation and every seeded identifier spares what was gathered. -/
theorem Sound.spared (hsound : world.Sound children) : world.Spared := by
  refine ⟨fun id operation hoperation hholding hash hhash => ?_, fun entry hentry => ?_⟩
  · have hmine := hsound.running id operation hoperation
    obtain ⟨job, phase, gathered⟩ := operation
    cases phase with
    | importing files => exact hmine.1 hash (hmine.2 hhash)
    | storing files metadata => exact hmine.1 hash (hmine.2 hhash)
    | stored files root => exact Covers.blobs hmine hash hhash
    | imported kind root => exact Covers.blobs hmine hash hhash
    | checking content => contradiction
    | downloading content => contradiction
    | comparing content body => contradiction
    | exporting content => exact hmine.2.blobs hash hhash
    | ready content => exact hmine.2.blobs hash hhash
    | settled content => exact hmine.2.blobs hash hhash
  · obtain ⟨-, content, -, hcovers⟩ := hsound.kept entry hentry
    exact hcovers.blobs entry.2 List.mem_cons_self

/-- The step that finds a late root after a loss takes the operation on without what it
gathered. -/
theorem findsGathered_of_spared {event : Event Id}
    (hstep : world.step children event = some next) (hspared : next.Spared) :
    world.FindsGathered event := by
  cases event with
  | advance id =>
      obtain ⟨⟨job, phase, gathered⟩, hoperation, hadvance⟩ := Option.bind_eq_some_iff.mp hstep
      rw [FindsGathered, hoperation]
      cases phase with
      | checking content =>
          intro hroot _ hash hhash
          simp only [World.advance, if_pos hroot] at hadvance
          obtain rfl := Option.some.inj hadvance
          refine hspared.1 id ⟨job, job.fetched content, gathered⟩ ?_ ?_ hash hhash
          · rw [goto, World.enter, IndexMap.get?_insert, if_pos rfl]
          · show (job.fetched content).Holding
            rw [Job.fetched]
            split <;> trivial
      | _ => trivial
  | _ => trivial

/-- From a store where no operation runs, as long as no fetch takes a root that came late
for content that lost a blob meanwhile, no run loses what an operation gathered; a
step that does takes it. -/
theorem collections_spare_operations (children : Hash → List Hash) {start : World Id}
    (hrests : start.Rests) :
    ∀ world, Reachable (World.step children) FindsGathered start world →
      world.Spared ∧ ∀ event next, world.step children event = some next →
        (next.Spared ↔ world.FindsGathered event) := by
  intro world hreachable
  have hsound : world.Sound children :=
    hreachable.invariant hrests.sound fun _ _ _ hstate hfinds hstep => hstate.step hfinds hstep
  refine ⟨hsound.spared, fun event next hstep => ⟨findsGathered_of_spared hstep, fun hfinds => ?_⟩⟩
  exact (hsound.step hfinds hstep).spared

end Invariant

end World

/-- A directory of one file is imported and tagged, with a collection at every step. -/
theorem collections_spare_import :
    let root : Hash := .filled 32 1
    let metadata : Hash := .filled 32 2
    let file : Hash := .filled 32 3
    let children (hash : Hash) : List Hash := if hash = root then [metadata, file] else []
    let cid := blake3HashToCid root .collection
    let start : World ℕ := ⟨{.filled 32 9}, ∅, [], ∅, []⟩
    ∃ world, Reachable (World.step children) World.FindsGathered start world ∧
      world.kept = [(cid, root), (cid, metadata), (cid, file)] ∧ world.Spared := by
  intro root metadata file children cid start
  have hrests : start.Rests := ⟨rfl, rfl, fun _ _ hvalue => by contradiction⟩
  have hrun : (run (guarded (World.step children) World.FindsGathered) start
      [.startCollection 1 ⟨.filled 20 9, cid, some (.filled 20 1), false⟩, .gc,
        .importFile 1 file, .gc, .storeMetadata 1 metadata, .gc, .storeRoot 1 root, .gc,
        .advance 1, .gc, .advance 1, .gc, .advance 1, .gc, .advance 1, .gc]).any
      (fun world => world.kept = [(cid, root), (cid, metadata), (cid, file)]) = true := by
    decide +kernel
  obtain ⟨world, hreachable, hkept⟩ := Reachable.exists_of_run hrun
  exact ⟨world, hreachable, of_decide_eq_true hkept,
    (World.collections_spare_operations children hrests world hreachable).1⟩

/-- A fetch sets its temporary tag while a member is in the store without its root; the
member is collected, another fetch brings the root, and the first one takes it for the
whole content and tags it. -/
theorem late_root_hides_lost_member :
    let root : Hash := .filled 32 1
    let metadata : Hash := .filled 32 2
    let member : Hash := .filled 32 3
    let children (hash : Hash) : List Hash := if hash = root then [metadata, member] else []
    let start : World ℕ := ⟨{member}, ∅, [], ∅, []⟩
    start.Rests ∧
      ¬ ∀ world, Reachable (World.step children) anyStep start world → world.Spared := by
  intro root metadata member children start
  refine ⟨⟨rfl, rfl, fun _ _ hvalue => by contradiction⟩, fun hspared => ?_⟩
  let cid := blake3HashToCid root .collection
  let job : Job := ⟨.filled 20 9, cid, some (.filled 20 1), false⟩
  have hrun : (run (guarded (World.step children) anyStep) start
      [.startFetch 1 job, .gc, .startFetch 2 job, .advance 2, .receive 2 root, .advance 1,
        .advance 1]).any
      (fun world => world.kept = [(cid, member)] ∧ member ∉ world.blobs) = true := by
    decide +kernel
  obtain ⟨world, hreachable, hlost⟩ := Reachable.exists_of_run hrun
  obtain ⟨hkept, hgone⟩ := of_decide_eq_true hlost
  have hmem : (cid, member) ∈ world.kept := by
    rw [hkept]
    exact List.mem_cons_self
  exact hgone ((hspared world hreachable).2 (cid, member) hmem)

end RadicleArtifact.Node.Gc
