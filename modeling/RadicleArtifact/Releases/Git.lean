import RadicleArtifact.Trust.Trust
import RadicleArtifact.Library.Sorting

/-!
# Reads from git

Without a cache, every read of a repository's releases materializes all of them
and looks at the result.  These are the reads over that listing.
-/

namespace RadicleArtifact.Releases

open RadicleArtifact.Core
open RadicleArtifact.Library
open RadicleArtifact.Cob

/-- A git or store failure, by its message. -/
abbrev StoreError := String

/-- One entry of a listing: a release with its id, or the error hit while
materializing it. -/
abbrev ReleaseEntry := Except StoreError (ReleaseId × Release)

/-- The tips of an object's refs: at least one. -/
structure Tips where
  oids : List Oid
  nonempty : oids ≠ []

/-- The release objects of a repository with their tips, in the order of a walk. -/
abbrev Refs := IndexMap ObjectId Tips

/-- How objects are rebuilt from git.  The set of an object's tips determines
what comes out, and a release that does is the replay of some operations. -/
structure CobStore where
  materialize : RepoId → ObjectId → Finset Oid → Except StoreError (Option Release)
  replayed : ∀ repo id tips release, materialize repo id tips = .ok (some release) →
    release.Replayed

/-- Every object materializes to one release. -/
def CobStore.always (release : Release) (hreplayed : release.Replayed) : CobStore where
  materialize _ _ _ := .ok (some release)
  replayed _ _ _ _ hrelease := Option.some.inj (Except.ok.inj hrelease) ▸ hreplayed

structure Repository where
  id : RepoId
  refs : Refs

namespace Repository

variable (cobs : CobStore) (repo : Repository)

def materialize (id : ObjectId) (tips : Tips) : Except StoreError (Option Release) :=
  cobs.materialize repo.id id tips.oids.toFinset

/-- `cob::list`: every object that materializes; a broken one is skipped. -/
def cobList : List (ReleaseId × Release) :=
  repo.refs.entries.filterMap fun entry =>
    match repo.materialize cobs entry.1 entry.2 with
    | .ok (some release) => some (entry.1, release)
    | _ => none

/-- `Store::all` -/
def storeAll : List ReleaseEntry :=
  (repo.cobList cobs).map .ok

/-- `Store::get` -/
def storeGet (id : ReleaseId) : Except StoreError (Option Release) :=
  match repo.refs.get? id with
  | some tips => repo.materialize cobs id tips
  | none => .ok none

/-- The sort key of a listing; failed entries come last. -/
def listKey : ReleaseEntry → WithBot (Timestamp ×ₗ ObjectId)
  | .ok (id, release) => (toLex (release.timestamp, id) : Timestamp ×ₗ ObjectId)
  | .error _ => ⊥

/-- Every release, newest first, with ties ordered by id. -/
def storeList : List ReleaseEntry :=
  sortByKeyDesc listKey (repo.storeAll cobs)

/-- Every object with refs materializes. -/
def Materializes : Prop :=
  ∀ id tips, repo.refs.get? id = some tips →
    ∃ release, repo.materialize cobs id tips = .ok (some release)

theorem materializes_always (release : Release) (hreplayed : release.Replayed) :
    repo.Materializes (.always release hreplayed) :=
  fun _ _ _ => ⟨release, rfl⟩

variable {cobs repo}

theorem mem_cobList {id : ReleaseId} {release : Release} :
    (id, release) ∈ repo.cobList cobs ↔
      ∃ tips, repo.refs.get? id = some tips ∧
        repo.materialize cobs id tips = .ok (some release) := by
  rw [cobList, List.mem_filterMap]
  constructor
  · rintro ⟨⟨found, tips⟩, hentry, hrelease⟩
    split at hrelease
    · rename_i other hmaterialize
      obtain ⟨rfl, rfl⟩ := Prod.mk.inj (Option.some.inj hrelease)
      exact ⟨tips, IndexMap.get?_eq_some_iff_mem.mpr hentry, hmaterialize⟩
    · cases hrelease
  · rintro ⟨tips, htips, hmaterialize⟩
    refine ⟨(id, tips), IndexMap.get?_eq_some_iff_mem.mp htips, ?_⟩
    rw [hmaterialize]

theorem nodup_keys_cobList : ((repo.cobList cobs).map Prod.fst).Nodup := by
  have hsub : ((repo.cobList cobs).map Prod.fst).Sublist (repo.refs.entries.map Prod.fst) := by
    rw [cobList]
    induction repo.refs.entries with
    | nil => exact .slnil
    | cons entry entries ih =>
        rw [List.filterMap_cons, List.map_cons]
        split
        · exact ih.cons entry.1
        · rename_i found hfound
          split at hfound
          · obtain rfl := Option.some.inj hfound
            exact ih.cons_cons entry.1
          · cases hfound
  exact hsub.nodup repo.refs.nodup_keys

/-- Where every object materializes, exactly the ids with refs are listed. -/
theorem storeGet_eq_some_iff {id : ReleaseId} {release : Release} :
    repo.storeGet cobs id = .ok (some release) ↔ (id, release) ∈ repo.cobList cobs := by
  rw [mem_cobList, storeGet]
  cases htips : repo.refs.get? id <;> simp

end Repository

/-- Every release containing an artifact with the given CID. -/
def findByCid (cid : Cid) : List ReleaseEntry → Except StoreError (List (ReleaseId × Release))
  | [] => .ok []
  | result :: results => do
      let (id, release) ← result
      let out ← findByCid cid results
      if (release.artifact cid).isSome then return (id, release) :: out
      return out

/-- The discovery locations of one release for `cid`. -/
def locationsIn (cid : Cid) (id : ReleaseId) (release : Release) :
    List (ReleaseId × Did × Url) :=
  match release.artifact cid with
  | none => []
  | some artifact =>
      artifact.locations.toList.flatMap fun entry =>
        entry.2.toList.map fun url => (id, entry.1, url)

/-- Every discovery location for `cid`, with its release and contributor. -/
def locationsFor (cid : Cid) :
    List ReleaseEntry → Except StoreError (List (ReleaseId × Did × Url))
  | [] => .ok []
  | result :: results => do
      let (id, release) ← result
      let out ← locationsFor cid results
      return locationsIn cid id release ++ out

/-- Whether a trusted party redacted every artifact of the release.  False for
a release with no artifacts. -/
def isFullyRedacted (release : Release) (delegates : BTreeSet Did) : Bool :=
  !release.artifacts.entries.isEmpty &&
    release.artifacts.values.all fun artifact =>
      !(Trust.withdrawals artifact delegates).isEmpty

/-- Release counts bucketed by creator trust and artifact redaction. -/
structure ReleaseCounts where
  delegate : ℕ
  delegateRedacted : ℕ
  other : ℕ
  otherRedacted : ℕ
  deriving DecidableEq

namespace ReleaseCounts

/-- Total across every bucket. -/
def total (counts : ReleaseCounts) : ℕ :=
  counts.delegate + counts.delegateRedacted + counts.other + counts.otherRedacted

/-- Releases that are not redacted, from any creator. -/
def visible (counts : ReleaseCounts) : ℕ :=
  counts.delegate + counts.other

end ReleaseCounts

/-- Count one release. -/
def ReleaseCounts.count (delegates : BTreeSet Did) (counts : ReleaseCounts)
    (release : Release) : ReleaseCounts :=
  match decide (release.creator ∈ delegates), isFullyRedacted release delegates with
  | true, false => { counts with delegate := counts.delegate + 1 }
  | true, true => { counts with delegateRedacted := counts.delegateRedacted + 1 }
  | false, false => { counts with other := counts.other + 1 }
  | false, true => { counts with otherRedacted := counts.otherRedacted + 1 }

theorem ReleaseCounts.count_comm (delegates : BTreeSet Did) (counts : ReleaseCounts)
    (left right : Release) :
    (counts.count delegates left).count delegates right =
      (counts.count delegates right).count delegates left := by
  simp only [count]
  cases decide (left.creator ∈ delegates) <;> cases isFullyRedacted left delegates <;>
    cases decide (right.creator ∈ delegates) <;> cases isFullyRedacted right delegates <;> rfl

/-- Count releases; entries that failed to materialize are skipped. -/
def counts (delegates : BTreeSet Did) (results : List ReleaseEntry) : ReleaseCounts :=
  (results.filterMap Except.toOption).foldl
    (fun counts entry => counts.count delegates entry.2) ⟨0, 0, 0, 0⟩

/-- Without failures, the releases holding the CID are a filtered listing. -/
theorem findByCid_map_ok (cid : Cid) (entries : List (ReleaseId × Release)) :
    findByCid cid (entries.map .ok) =
      .ok (entries.filter fun entry => (entry.2.artifact cid).isSome) := by
  induction entries with
  | nil => rfl
  | cons entry entries ih =>
      rw [List.map_cons, findByCid, ih]
      by_cases hholds : (entry.2.artifact cid).isSome
      · simp [hholds, bind, Except.bind, pure, Except.pure]
      · simp [hholds, bind, Except.bind, pure, Except.pure]

theorem locationsFor_map_ok (cid : Cid) (entries : List (ReleaseId × Release)) :
    locationsFor cid (entries.map .ok) =
      .ok (entries.flatMap fun entry => locationsIn cid entry.1 entry.2) := by
  induction entries with
  | nil => rfl
  | cons entry entries ih =>
      rw [List.map_cons, locationsFor, ih]
      rfl

theorem counts_map_ok (delegates : BTreeSet Did) (entries : List (ReleaseId × Release)) :
    counts delegates (entries.map .ok) =
      entries.foldl (fun counts entry => counts.count delegates entry.2) ⟨0, 0, 0, 0⟩ := by
  have hall : (entries.map (.ok : ReleaseId × Release → ReleaseEntry)).filterMap
      Except.toOption = entries := by
    induction entries with
    | nil => rfl
    | cons entry entries ih => simp [Except.toOption, ih]
  rw [counts, hall]

end RadicleArtifact.Releases
