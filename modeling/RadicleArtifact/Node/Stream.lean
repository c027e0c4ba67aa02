import RadicleArtifact.Node.Fetch

/-!
# Fetch, download and export requests

The three streaming requests of the node, for a client that stays connected:
each emits progress frames and ends with one terminal event.  The export of
bytes that are in the store is a parameter of the run.

Completeness is decided in four places.  The fast path of a fetch, the check
after a provider download and the check before an export ask for the root blob;
only the re-check at the end of a fetch asks for all of the content.
-/

namespace RadicleArtifact.Node

open RadicleArtifact.Core
open RadicleArtifact.Library

/-- What writing an artifact to disk emits and returns. -/
structure Export where
  frames : List FetchProgress
  result : Except ShareError UInt64

/-- Everything outside the node that a streaming request depends on. -/
structure StreamRun extends FetchRun where
  setTag : Except String Unit
  exportBlobTo : Blobs → Hash → PathBuf → Export
  exportCollectionTo : Blobs → Hash → PathBuf → Export

/-- The frames of a request, the store it leaves and its terminal event. -/
structure StreamOutcome (Receipt : Type) where
  frames : List FetchProgress
  store : Store
  event : Except CommandError Receipt

/-- The wire error of a failed operation. -/
def ShareError.toCommandError (err : ShareError) : CommandError :=
  ⟨shareErrorToCode err, err.message⟩

/-- The store-level value a CID's tag points at. -/
def tagValue (cid : Cid) (hash : Hash) : Except ShareError HashAndFormat :=
  match artifactKind cid with
  | .ok .blob => .ok ⟨hash, .raw⟩
  | .ok .collection => .ok ⟨hash, .hashSeq⟩
  | .error err => .error (.ofCore err)

/-- Mark a repository, release and CID as actively seeded. -/
def tagSeeded (run : StreamRun) (store : Store) (rid : RepoId) (release : Oid) (cid : Cid)
    (hash : Hash) : Except ShareError Store :=
  match tagValue cid hash with
  | .error err => .error err
  | .ok value =>
      match run.setTag with
      | .error err => .error (.iroh ("set seeded tag: " ++ err))
      | .ok () => .ok { store with seeded := store.seeded.insert (rid, release, cid) value }

/-- Tag the artifact when the request asked to seed it under a release, and say
whether a tag was set. -/
def tagIfSeeding (run : StreamRun) (store : Store) (rid : RepoId) (seed : Option Oid)
    (cid : Cid) (hash : Hash) : Except ShareError (Store × Bool) :=
  match seed with
  | none => .ok (store, false)
  | some release => (tagSeeded run store rid release cid hash).map fun store => (store, true)

def exportToDest (run : StreamRun) (blobs : Blobs) (hash : Hash) (dest : PathBuf) :
    ArtifactKind → Export
  | .blob => run.exportBlobTo blobs hash dest
  | .collection => run.exportCollectionTo blobs hash dest

section Requests

variable (ctx : NodeCtx) (run : StreamRun) (store : Store)

/-- `Fetch`: pull the artifact into the store, tagging it if requested. -/
def streamFetch (rid : RepoId) (cid : Cid) (locations : List FetchLocation)
    (seed : Option Oid) : StreamOutcome FetchReceipt :=
  let outcome := fetchIntoStore ctx run.toFetchRun store.blobs cid locations
  let after := { store with blobs := outcome.blobs }
  match outcome.result with
  | .error err => ⟨outcome.frames, after, .error err⟩
  | .ok fetched =>
      match tagIfSeeding run after rid seed cid fetched.hash with
      | .error err => ⟨outcome.frames, after, .error err.toCommandError⟩
      | .ok (tagged, seeded) =>
          ⟨outcome.frames, tagged, .ok
            ⟨rid, cid, ctx.artifactSize tagged.blobs cid fetched.hash, fetched.fromCache,
              seeded, ctx.endpointId⟩⟩

/-- `Download`: fetch into the store, then export before the tag is set. -/
def streamDownload (rid : RepoId) (cid : Cid) (locations : List FetchLocation)
    (dest : PathBuf) (seed : Option Oid) : StreamOutcome DownloadReceipt :=
  let outcome := fetchIntoStore ctx run.toFetchRun store.blobs cid locations
  let after := { store with blobs := outcome.blobs }
  match outcome.result with
  | .error err => ⟨outcome.frames, after, .error err⟩
  | .ok fetched =>
      let exported := exportToDest run outcome.blobs fetched.hash dest fetched.kind
      let frames := outcome.frames ++ exported.frames
      match exported.result with
      | .error err => ⟨frames, after, .error err.toCommandError⟩
      | .ok bytes =>
          match tagIfSeeding run after rid seed cid fetched.hash with
          | .error err => ⟨frames, after, .error err.toCommandError⟩
          | .ok (tagged, seeded) =>
              ⟨frames, tagged, .ok
                ⟨rid, cid, dest, bytes, fetched.fromCache, seeded, ctx.endpointId⟩⟩

/-- `Export`: stream already-local bytes to `dest`. -/
def streamExport (cid : Cid) (dest : PathBuf) : StreamOutcome ExportReceipt :=
  match artifactKind cid with
  | .error err => ⟨[], store, .error ⟨.invalidRequest, err.message⟩⟩
  | .ok kind =>
      match hashAndFormat cid with
      | .error err => ⟨[], store, .error err⟩
      | .ok content =>
          match ctx.iroh.has store.blobs content.hash with
          | .error err => ⟨[], store, .error ⟨.iroh, "local lookup: " ++ err⟩⟩
          | .ok false =>
              ⟨[], store, .error
                ⟨.notLocal, "content for " ++ ctx.cidText cid ++
                  " is not complete in the store"⟩⟩
          | .ok true =>
              let exported := exportToDest run store.blobs content.hash dest kind
              match exported.result with
              | .error err => ⟨exported.frames, store, .error err.toCommandError⟩
              | .ok bytes => ⟨exported.frames, store, .ok ⟨cid, dest, bytes⟩⟩

end Requests

/-! ## Local completeness -/

section Completeness

variable {ctx : NodeCtx} {children : Hash → List Hash} {content : HashAndFormat}
  {run : StreamRun} {store : Store} {rid : RepoId} {cid : Cid}
  {locations : List FetchLocation} {seed : Option Oid} {dest : PathBuf}

/-- Tagging leaves the blobs alone. -/
theorem blobs_of_tagIfSeeding {hash : Hash} {tagged : Store} {seeded : Bool}
    (htagged : tagIfSeeding run store rid seed cid hash = .ok (tagged, seeded)) :
    tagged.blobs = store.blobs := by
  cases seed with
  | none =>
      rw [tagIfSeeding] at htagged
      obtain ⟨rfl, -⟩ := Prod.mk.inj (Except.ok.inj htagged)
      rfl
  | some release =>
      rw [tagIfSeeding, tagSeeded] at htagged
      cases hvalue : tagValue cid hash with
      | error err => simp [hvalue, Except.map] at htagged
      | ok value =>
          cases hset : run.setTag with
          | error err => simp [hvalue, hset, Except.map] at htagged
          | ok done =>
              simp only [hvalue, hset, Except.map, Except.ok.injEq, Prod.mk.injEq]
                at htagged
              rw [← htagged.1]

/-- A successful `Fetch` is a successful fetch into the store. -/
theorem fetched_of_streamFetch {receipt : FetchReceipt}
    (hreceipt : (streamFetch ctx run store rid cid locations seed).event = .ok receipt) :
    ∃ fetched,
      (fetchIntoStore ctx run.toFetchRun store.blobs cid locations).result = .ok fetched ∧
        (streamFetch ctx run store rid cid locations seed).store.blobs =
          (fetchIntoStore ctx run.toFetchRun store.blobs cid locations).blobs := by
  rw [streamFetch] at hreceipt ⊢
  cases hresult : (fetchIntoStore ctx run.toFetchRun store.blobs cid locations).result with
  | error err => simp [hresult] at hreceipt
  | ok fetched =>
      simp only [hresult] at hreceipt ⊢
      split at hreceipt
      · simp at hreceipt
      · rename_i tagged seeded htagged
        exact ⟨fetched, rfl, blobs_of_tagIfSeeding htagged⟩

/-- A successful `Download` is a successful fetch into the store. -/
theorem fetched_of_streamDownload {receipt : DownloadReceipt}
    (hreceipt : (streamDownload ctx run store rid cid locations dest seed).event =
      .ok receipt) :
    ∃ fetched,
      (fetchIntoStore ctx run.toFetchRun store.blobs cid locations).result = .ok fetched ∧
        (streamDownload ctx run store rid cid locations dest seed).store.blobs =
          (fetchIntoStore ctx run.toFetchRun store.blobs cid locations).blobs := by
  rw [streamDownload] at hreceipt ⊢
  cases hresult : (fetchIntoStore ctx run.toFetchRun store.blobs cid locations).result with
  | error err => simp [hresult] at hreceipt
  | ok fetched =>
      simp only [hresult] at hreceipt ⊢
      split at hreceipt
      · simp at hreceipt
      · rename_i bytes hbytes
        split at hreceipt
        · simp at hreceipt
        · rename_i tagged seeded htagged
          exact ⟨fetched, rfl, blobs_of_tagIfSeeding htagged⟩

theorem shareErrorToCode_ne_notLocal (err : ShareError) :
    shareErrorToCode err ≠ .notLocal := by
  cases err <;> simp [shareErrorToCode]

theorem kind_of_tagValue {hash : Hash} (hvalue : tagValue cid hash = .ok content) :
    content.hash = hash ∧ ∃ kind, artifactKind cid = .ok kind := by
  rw [tagValue] at hvalue
  cases hkind : artifactKind cid with
  | error err =>
      rw [hkind] at hvalue
      contradiction
  | ok kind =>
      rw [hkind] at hvalue
      cases kind <;> exact ⟨congrArg HashAndFormat.hash (Except.ok.inj hvalue).symm, _, rfl⟩

/-- The content of an identifier is what its tags point at under its own hash. -/
theorem hashAndFormat_eq_ok_iff :
    hashAndFormat cid = .ok content ↔
      ∃ hash, cidToBlake3Hash cid = .ok hash ∧ tagValue cid hash = .ok content := by
  rw [hashAndFormat]
  cases hhash : cidToBlake3Hash cid with
  | error err => simp
  | ok hash =>
      simp only [Except.ok.injEq, exists_eq_left', tagValue]
      cases hkind : artifactKind cid with
      | error err => simp
      | ok kind => cases kind <;> simp only [Except.ok.injEq]

theorem hashAndFormat_kind (hcontent : hashAndFormat cid = .ok content) :
    ∃ kind, artifactKind cid = .ok kind := by
  obtain ⟨hash, -, hvalue⟩ := hashAndFormat_eq_ok_iff.mp hcontent
  exact (kind_of_tagValue hvalue).2

/-- `Export` answers `NotLocal` exactly when the root blob is missing. -/
theorem streamExport_notLocal_iff (hiroh : ctx.iroh.Honest children)
    (hcontent : hashAndFormat cid = .ok content) :
    (∃ message, (streamExport ctx run store cid dest).event = .error ⟨.notLocal, message⟩) ↔
      content.hash ∉ store.blobs := by
  obtain ⟨kind, hkind⟩ := hashAndFormat_kind hcontent
  rw [streamExport]
  simp only [hkind, hcontent, hiroh.has]
  by_cases hmem : content.hash ∈ store.blobs
  · simp only [hmem, decide_true, not_true_eq_false, iff_false, not_exists]
    intro message
    split
    · rename_i err _
      intro hevent
      exact shareErrorToCode_ne_notLocal err
        (congrArg CommandError.code (Except.error.inj hevent))
    · simp
  · simp [hmem]

/-- What the answers of the node promise about one artifact: success means that
all of it is in the store, and an export of anything less answers `NotLocal`. -/
structure AnswersComplete (ctx : NodeCtx) (children : Hash → List Hash) (run : StreamRun)
    (store : Store) (rid : RepoId) (cid : Cid) (locations : List FetchLocation)
    (seed : Option Oid) (dest : PathBuf) (content : HashAndFormat) : Prop where
  fetchIntoStore : ∀ fetched,
    (fetchIntoStore ctx run.toFetchRun store.blobs cid locations).result = .ok fetched →
      Holds children (fetchIntoStore ctx run.toFetchRun store.blobs cid locations).blobs
        content
  streamFetch : ∀ receipt,
    (streamFetch ctx run store rid cid locations seed).event = .ok receipt →
      Holds children (streamFetch ctx run store rid cid locations seed).store.blobs content
  streamDownload : ∀ receipt,
    (streamDownload ctx run store rid cid locations dest seed).event = .ok receipt →
      Holds children (streamDownload ctx run store rid cid locations dest seed).store.blobs
        content
  streamExport : ¬ Holds children store.blobs content →
    ∃ message, (streamExport ctx run store cid dest).event = .error ⟨.notLocal, message⟩

end Completeness

/-- The answers are right exactly in the states in which the root blob is not
there without the rest of the artifact. -/
theorem answersComplete_iff (ctx : NodeCtx) (children : Hash → List Hash)
    (hiroh : ctx.iroh.Honest children) (run : StreamRun) (store : Store) (rid : RepoId)
    (cid : Cid) (locations : List FetchLocation) (seed : Option Oid) (dest : PathBuf)
    (content : HashAndFormat) (hcontent : hashAndFormat cid = .ok content) :
    AnswersComplete ctx children run store rid cid locations seed dest content ↔
      (content.hash ∈ store.blobs → Holds children store.blobs content) := by
  constructor
  · intro hanswers hroot
    by_contra hholds
    exact (streamExport_notLocal_iff hiroh hcontent).mp (hanswers.streamExport hholds) hroot
  · intro hroot
    have hfetch : ∀ fetched,
        (fetchIntoStore ctx run.toFetchRun store.blobs cid locations).result =
            .ok fetched →
          Holds children (fetchIntoStore ctx run.toFetchRun store.blobs cid
            locations).blobs content :=
      fun fetched hfetched => holds_of_fetchIntoStore hiroh hcontent hroot hfetched
    refine ⟨hfetch, fun receipt hreceipt => ?_, fun receipt hreceipt => ?_,
      fun hholds => ?_⟩
    · obtain ⟨fetched, hfetched, hblobs⟩ := fetched_of_streamFetch hreceipt
      rw [hblobs]
      exact hfetch fetched hfetched
    · obtain ⟨fetched, hfetched, hblobs⟩ := fetched_of_streamDownload hreceipt
      rw [hblobs]
      exact hfetch fetched hfetched
    · exact (streamExport_notLocal_iff hiroh hcontent).mpr (mt hroot hholds)

section Collection

/-! A collection with a metadata blob and one member. -/

/-- The children of a collection with root `root`. -/
def listing (root : Hash) (members : List Hash) (hash : Hash) : List Hash :=
  if hash = root then members else []

/-- A node over a store that answers as promised, away from any network. -/
def offlineCtx (children : Hash → List Hash) : NodeCtx where
  iroh := .honest children
  endpointId := .filled 32 1
  endpointText _ := "radiroh://aeaqcaibaeaqcaibaeaqcaibaeaqcaibaeaqcaibaeaqcaibaeaq"
  cidText _ := "bagaachraa4dqobyha4dqobyha4dqobyha4dqobyha4dqobyha4dqobyha4dq"
  artifactSize _ _ _ := 0

/-- No provider and no URL answers, and the collection cannot be loaded. -/
def offlineRun : StreamRun where
  tempTag := .ok ()
  download _ := ⟨.error "offline", id⟩
  http _ := ⟨[], .error (.http "offline"), id⟩
  setTag := .ok ()
  exportBlobTo _ _ _ := ⟨[], .error (.iroh "export: blob not found")⟩
  exportCollectionTo _ _ _ := ⟨[], .error (.iroh "load collection: blob not found")⟩

theorem answersComplete_of_empty_store :
    let root : Hash := .filled 32 7
    let children := listing root [.filled 32 8, .filled 32 9]
    AnswersComplete (offlineCtx children) children offlineRun ⟨∅, ∅⟩ (.filled 20 3)
      (blake3HashToCid root .collection) [] none (Utf8.encode "out") ⟨root, .hashSeq⟩ := by
  intro root children
  refine (answersComplete_iff (offlineCtx children) children (Iroh.honest_honest children)
    offlineRun ⟨∅, ∅⟩ (.filled 20 3) (blake3HashToCid root .collection) [] none (Utf8.encode "out")
    ⟨root, .hashSeq⟩ ?_).mpr (by simp)
  simp [hashAndFormat]

/-- Only the root of a collection is there: the fetch succeeds from the cache and
sets a seeded tag, and the export does not answer `NotLocal`. -/
theorem root_alone_passes_as_complete :
    let root : Hash := .filled 32 7
    let children := listing root [.filled 32 8, .filled 32 9]
    let ctx := offlineCtx children
    let cid := blake3HashToCid root .collection
    let store : Store := ⟨{root}, ∅⟩
    let rid : RepoId := .filled 20 3
    let release : Oid := .filled 20 4
    let fetched := streamFetch ctx offlineRun store rid cid [] (some release)
    ctx.iroh.Honest children ∧ hashAndFormat cid = .ok ⟨root, .hashSeq⟩ ∧
      fetched.event = .ok ⟨rid, cid, 0, true, true, ctx.endpointId⟩ ∧
      fetched.store.seeded.get? (rid, release, cid) = some ⟨root, .hashSeq⟩ ∧
      ¬ Holds children fetched.store.blobs ⟨root, .hashSeq⟩ ∧
      ¬ Holds children store.blobs ⟨root, .hashSeq⟩ ∧
      (streamExport ctx offlineRun store cid (Utf8.encode "out")).event =
        .error ⟨.iroh, "iroh error: load collection: blob not found"⟩ := by
  intro root children ctx cid store rid release fetched
  refine ⟨Iroh.honest_honest children, by simp [hashAndFormat, cid], rfl, rfl, ?_, ?_, rfl⟩
  · decide
  · decide

end Collection

end RadicleArtifact.Node
