import RadicleArtifact.Cache.Refinement

/-!
# Runs of a shared cache

Any number of repositories share one cache.  Their refs change between reads,
and an object id may occur in several of them.  Along every run from an empty
cache the cache stays coherent, so a read is right whenever it is right in a
coherent state: always, except for location lookups that meet an orphaned row.
-/

namespace RadicleArtifact.Cache

open RadicleArtifact.Core
open RadicleArtifact.Library
open RadicleArtifact.Cob
open RadicleArtifact.Releases

inductive Read where
  | get (id : ReleaseId)
  | all
  | findByCid (cid : Cid)
  | locationsFor (cid : Cid)
  | counts (delegates : BTreeSet Did)

inductive Answer where
  | release (result : Except StoreError (Option Release))
  | entries (result : Except StoreError (List ReleaseEntry))
  | releases (result : Except StoreError (List (ReleaseId × Release)))
  | locations (result : Except StoreError (List (ReleaseId × Did × Url)))
  | counts (result : Except StoreError ReleaseCounts)

def answer {Result : Type} (make : Result → Answer) (read : Result × Store) :
    Answer × Store :=
  (make read.1, read.2)

/-- Both fail alike, or both succeed with the same set of items. -/
def SameSet {Item : Type} (left right : Except StoreError (List Item)) : Prop :=
  match left, right with
  | .ok left, .ok right => ∀ item, item ∈ left ↔ item ∈ right
  | .error left, .error right => left = right
  | _, _ => False

def Answer.Agrees : Answer → Answer → Prop
  | .release left, .release right => left = right
  | .entries left, .entries right => SameSet left right
  | .releases left, .releases right => SameSet left right
  | .locations left, .locations right => SameSet left right
  | .counts left, .counts right => left = right
  | _, _ => False

/-- The refs of every repository, and the cache they share. -/
structure State where
  refs : RepoId → Refs
  store : Store

inductive Step where
  /-- The refs of a repository change: objects appear, move or disappear. -/
  | git (repo : RepoId) (refs : Refs)
  | read (repo : RepoId) (read : Read)

def State.repository (state : State) (repo : RepoId) : Repository :=
  ⟨repo, state.refs repo⟩

section Runs

variable (texts : TextForms) (cobs : CobStore)

/-- The answer without a cache. -/
def Read.fromGit (repo : Repository) : Read → Answer
  | .get id => .release (repo.storeGet cobs id)
  | .all => .entries (.ok (repo.storeAll cobs))
  | .findByCid cid => .releases (Releases.findByCid cid (repo.storeAll cobs))
  | .locationsFor cid => .locations (Releases.locationsFor cid (repo.storeAll cobs))
  | .counts delegates => .counts (.ok (Releases.counts delegates (repo.storeAll cobs)))

/-- The answer through the cache, and the cache after the read. -/
def Read.throughCache (repo : Repository) (store : Store) : Read → Answer × Store
  | .get id => answer .release (Cache.get texts cobs repo id store)
  | .all => answer .entries (Cache.all texts cobs repo store)
  | .findByCid cid => answer .releases (Cache.findByCid texts cobs repo cid store)
  | .locationsFor cid => answer .locations (Cache.locationsFor texts cobs repo cid store)
  | .counts delegates => answer .counts (Cache.counts texts cobs repo delegates store)

def State.step (state : State) : Step → State
  | .git repo refs => { state with refs := Function.update state.refs repo refs }
  | .read repo read =>
      { state with
        store := (read.throughCache texts cobs (state.repository repo) state.store).2 }

def State.run (state : State) (steps : List Step) : State :=
  steps.foldl (State.step texts cobs) state

/-- A read through the cache returns what the same read of git would return. -/
def ReadRight (state : State) (repo : RepoId) (read : Read) : Prop :=
  (read.throughCache texts cobs (state.repository repo) state.store).1.Agrees
    (read.fromGit cobs (state.repository repo))

/-- A location lookup meets no orphaned row. -/
def MeetsNoOrphan (state : State) (repo : RepoId) : Read → Prop
  | .locationsFor cid => NoOrphan (state.repository repo) cid state.store
  | _ => True

/-- Something holds of every read of a run, in the state the read finds. -/
def EveryRead (holds : State → RepoId → Read → Prop) : State → List Step → Prop
  | _, [] => True
  | state, .git repo refs :: steps =>
      EveryRead holds (state.step texts cobs (.git repo refs)) steps
  | state, .read repo read :: steps =>
      holds state repo read ∧
        EveryRead holds (state.step texts cobs (.read repo read)) steps

/-- Every object with refs materializes, in every repository. -/
def State.Materializes (state : State) : Prop :=
  ∀ repo, (state.repository repo).Materializes cobs

/-- The objects a step gives refs to materialize. -/
def Step.Materializes : Step → Prop
  | .git repo refs => Repository.Materializes cobs ⟨repo, refs⟩
  | .read _ _ => True

theorem State.materializes_always (state : State) {release : Release}
    (hreplayed : release.Replayed) : state.Materializes (.always release hreplayed) :=
  fun repo => (state.repository repo).materializes_always release hreplayed

theorem Step.materializes_always (step : Step) {release : Release}
    (hreplayed : release.Replayed) : step.Materializes (.always release hreplayed) := by
  cases step with
  | git repo refs => exact Repository.materializes_always _ release hreplayed
  | read repo read => trivial

variable {texts cobs}

/-! ## One step -/

theorem coherent_rebuild {repo : Repository} {store : Store}
    (hcoherent : Coherent texts cobs store) (id : ReleaseId) (tips : Tips) :
    Coherent texts cobs (rebuild texts cobs repo id tips store).2 := by
  rw [rebuild]
  split
  · exact hcoherent
  · rename_i release hmaterialize
    exact hcoherent.update hmaterialize
  · exact hcoherent.remove repo.id id

theorem coherent_cachedGet {repo : Repository} {store : Store}
    (hcoherent : Coherent texts cobs store) (id : ReleaseId) :
    Coherent texts cobs (cachedGet texts cobs repo id store).2 := by
  rw [cachedGet]
  split
  · exact hcoherent.remove repo.id id
  · rename_i tips _
    split
    · split
      · exact hcoherent
      · exact coherent_rebuild hcoherent id tips
    · exact coherent_rebuild hcoherent id tips
    · exact coherent_rebuild hcoherent id tips
    · exact hcoherent

theorem coherent_throughCache {repo : Repository} {store : Store}
    (hcoherent : Coherent texts cobs store) (read : Read) :
    Coherent texts cobs (read.throughCache texts cobs repo store).2 := by
  cases read with
  | get id =>
      exact coherent_cachedGet hcoherent id
  | all | findByCid cid | locationsFor cid | counts delegates => exact hcoherent.refreshRepo

theorem coherent_step {state : State} (hcoherent : Coherent texts cobs state.store)
    (step : Step) : Coherent texts cobs (state.step texts cobs step).store := by
  cases step with
  | git repo refs => exact hcoherent
  | read repo read => exact coherent_throughCache hcoherent read

theorem materializes_step {state : State} (hstate : state.Materializes cobs) {step : Step}
    (hstep : step.Materializes cobs) : (state.step texts cobs step).Materializes cobs := by
  cases step with
  | git changed refs =>
      intro repo
      by_cases hrepo : repo = changed
      · subst hrepo
        show Repository.Materializes cobs ⟨repo, Function.update state.refs repo refs repo⟩
        rw [Function.update_self]
        exact hstep
      · show Repository.Materializes cobs ⟨repo, Function.update state.refs changed refs repo⟩
        rw [Function.update_of_ne hrepo]
        exact hstate repo
  | read repo read => exact hstate

/-- In a coherent state, a read is right exactly when it meets no orphan. -/
theorem readRight_iff {state : State} (hcoherent : Coherent texts cobs state.store)
    (hstate : state.Materializes cobs) (repo : RepoId) (read : Read) :
    ReadRight texts cobs state repo read ↔ MeetsNoOrphan state repo read := by
  cases read with
  | get id => exact iff_of_true (get_eq hcoherent (hstate repo) id) trivial
  | all =>
      obtain ⟨entries, hentries, hperm⟩ := all_perm hcoherent (hstate repo)
      refine iff_of_true ?_ trivial
      show SameSet (all texts cobs (state.repository repo) state.store).1 _
      rw [hentries]
      exact fun entry => (hperm.map _).mem_iff
  | findByCid cid =>
      obtain ⟨entries, hentries, hmem⟩ := findByCid_mem hcoherent (hstate repo) cid
      refine iff_of_true ?_ trivial
      show SameSet (findByCid texts cobs (state.repository repo) cid state.store).1 _
      rw [hentries, Repository.storeAll, findByCid_map_ok]
      rintro ⟨id, release⟩
      rw [hmem, List.mem_filter]
  | locationsFor cid =>
      obtain ⟨found, expected, hfound, hexpected, hiff⟩ :=
        locationsFor_mem_iff hcoherent (hstate repo) cid
      show SameSet (locationsFor texts cobs (state.repository repo) cid state.store).1
        (Releases.locationsFor cid ((state.repository repo).storeAll cobs)) ↔ _
      rw [hfound, hexpected]
      exact hiff
  | counts delegates => exact iff_of_true (counts_eq hcoherent (hstate repo) delegates) trivial

/-! ## Whole runs -/

theorem coherent_run {start : State} (hcoherent : Coherent texts cobs start.store)
    (steps : List Step) : Coherent texts cobs (start.run texts cobs steps).store := by
  induction steps generalizing start with
  | nil => exact hcoherent
  | cons step steps ih => exact ih (coherent_step hcoherent step)

theorem everyRead_right_iff {start : State} (hcoherent : Coherent texts cobs start.store)
    (hstart : start.Materializes cobs) {steps : List Step}
    (hsteps : ∀ step ∈ steps, step.Materializes cobs) :
    EveryRead texts cobs (ReadRight texts cobs) start steps ↔
      EveryRead texts cobs MeetsNoOrphan start steps := by
  induction steps generalizing start with
  | nil => exact Iff.rfl
  | cons step steps ih =>
      have hlater := ih (coherent_step hcoherent step)
        (materializes_step hstart (hsteps step (by simp)))
        fun later hlater => hsteps later (List.mem_cons_of_mem _ hlater)
      cases step with
      | git repo refs => exact hlater
      | read repo read => exact and_congr (readRight_iff hcoherent hstart repo read) hlater

/-- Along every run from an empty cache, every read is right if and only if no
location lookup meets an orphaned row. -/
theorem reads_refine_git_iff (refs : RepoId → Refs) (steps : List Step)
    (hstart : State.Materializes cobs ⟨refs, ∅⟩)
    (hsteps : ∀ step ∈ steps, step.Materializes cobs) :
    EveryRead texts cobs (ReadRight texts cobs) ⟨refs, ∅⟩ steps ↔
      EveryRead texts cobs MeetsNoOrphan ⟨refs, ∅⟩ steps :=
  everyRead_right_iff coherent_empty hstart hsteps

end Runs

/-- A lookup after a refresh of the same repository. -/
theorem reads_refine_git_in_one_repository :
    let did : Did := .filled 32 1
    let cid := blake3HashToCid (.filled 32 7) .blob
    let url : Url := ⟨"https://example.com/app", by decide⟩
    let root : Op := ⟨did, [.create (.filled 20 5) none, .registerArtifact cid "app",
      .addLocation cid url], 5⟩
    let release := (Release.new (.filled 20 5) none did 5).run (Release.history root [])
    let texts := TextForms.sample did
      "did:key:z6MkeXBLjYiSvqnhFb6D7sHm8yKm4jV45wwBFRaatf1cfZ76" cid
      "bafkr4iaha4dqobyha4dqobyha4dqobyha4dqobyha4dqobyha4dqobyha4" (by decide) (by decide)
    let cobs := CobStore.always release ⟨fun _ => .ok (), root, [], rfl⟩
    let repo : RepoId := .filled 20 1
    let refs : Refs := .collect [(.filled 20 6, ⟨[.filled 20 6], by simp⟩)]
    EveryRead texts cobs (ReadRight texts cobs) ⟨fun _ => ∅, ∅⟩
      [.git repo refs, .read repo .all, .read repo (.locationsFor cid)] := by
  intro did cid url root release texts cobs repo refs
  apply (reads_refine_git_iff (fun _ => ∅) _ (State.materializes_always _ _)
    fun step _ => step.materializes_always _).mpr
  refine ⟨trivial, fun row hrow _ _ _ => ?_, trivial⟩
  have hone : row ∈ [locationRow texts repo cid (.filled 20 6) did url] := hrow
  rw [List.mem_singleton.mp hone]
  exact .inl (List.mem_cons_self : FixedBytes.filled 20 6 ∈ [FixedBytes.filled 20 6])

/-- An object of two repositories: the second read takes its row over, and once
the first repository drops the object, its location rows are found no more. -/
theorem taken_over_row_outlives_object :
    let did : Did := .filled 32 1
    let cid := blake3HashToCid (.filled 32 7) .blob
    let url : Url := ⟨"https://example.com/app", by decide⟩
    let root : Op := ⟨did, [.create (.filled 20 5) none, .registerArtifact cid "app",
      .addLocation cid url], 5⟩
    let release := (Release.new (.filled 20 5) none did 5).run (Release.history root [])
    let texts := TextForms.sample did
      "did:key:z6MkeXBLjYiSvqnhFb6D7sHm8yKm4jV45wwBFRaatf1cfZ76" cid
      "bafkr4iaha4dqobyha4dqobyha4dqobyha4dqobyha4dqobyha4dqobyha4" (by decide) (by decide)
    let cobs := CobStore.always release ⟨fun _ => .ok (), root, [], rfl⟩
    let first : RepoId := .filled 20 1
    let second : RepoId := .filled 20 2
    let refs : Refs := .collect [(.filled 20 6, ⟨[.filled 20 6], by simp⟩)]
    ¬ EveryRead texts cobs (ReadRight texts cobs) ⟨fun _ => ∅, ∅⟩
      [.git first refs, .read first .all, .git second refs, .read second .all,
        .git first ∅, .read first (.locationsFor cid)] := by
  intro did cid url root release texts cobs first second refs hright
  have hmeets := (everyRead_right_iff coherent_empty (State.materializes_always _ _)
    fun step _ => step.materializes_always _).mp hright
  -- Both updates ran, and nothing removed the row of the first.
  have hstale : locationRow texts first cid (.filled 20 6) did url ∈
      [locationRow texts first cid (.filled 20 6) did url,
        locationRow texts second cid (.filled 20 6) did url] := List.mem_cons_self
  have horphan : NoOrphan ⟨first, ∅⟩ cid _ := hmeets.2.2.1
  rcases horphan _ hstale rfl rfl url.serialization_ne_empty with hrefs | ⟨row, hrow, howner⟩
  · simp [IndexMap.keys] at hrefs
  · have hsecond : some second = some row.repo := congrArg (Option.map ReleaseRow.repo) hrow
    rw [howner] at hsecond
    exact absurd (Option.some.inj hsecond) (by decide)

end RadicleArtifact.Cache
