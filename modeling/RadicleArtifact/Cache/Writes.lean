import RadicleArtifact.Cache.Store

/-!
# Writes to the cache

The table of releases holds the last write to an object id through any repository, the
location rows of an object and a repository the last write through that repository.  The
two tables agree exactly when these are the same write wherever location rows are left.
-/

namespace RadicleArtifact.Cache

open RadicleArtifact.Core
open RadicleArtifact.Library
open RadicleArtifact.Cob

/-- A write to the store. -/
inductive Call where
  | update (repo : RepoId) (id : ReleaseId) (head : String) (release : Release)
  | remove (repo : RepoId) (id : ReleaseId)

namespace Call

def repo : Call → RepoId
  | update repo _ _ _ | remove repo _ => repo

def id : Call → ReleaseId
  | update _ id _ _ | remove _ id => id

/-- The call, if it is for the object. -/
def on (id : ReleaseId) (call : Call) : Option Call :=
  if call.id = id then some call else none

/-- The call, if it is for the object and through the repository. -/
def through (repo : RepoId) (id : ReleaseId) (call : Call) : Option Call :=
  if call.repo = repo ∧ call.id = id then some call else none

theorem last_through {repo : RepoId} {id : ReleaseId} {calls : List Call} {call : Call}
    (hlast : lastWrite (through repo id) calls = some call) : call.repo = repo ∧ call.id = id := by
  obtain ⟨found, -, hfound⟩ := List.exists_of_findSome?_eq_some hlast
  rw [through, Option.ite_none_right_eq_some] at hfound
  rw [← Option.some.inj hfound.2]
  exact hfound.1

theorem last_on {id : ReleaseId} {calls : List Call} {call : Call}
    (hlast : lastWrite (on id) calls = some call) : call.id = id := by
  obtain ⟨found, -, hfound⟩ := List.exists_of_findSome?_eq_some hlast
  rw [on, Option.ite_none_right_eq_some] at hfound
  rw [← Option.some.inj hfound.2]
  exact hfound.1

/-- Among the calls for an object, the last one is the last one through its repository. -/
theorem through_of_last_on {id : ReleaseId} {calls : List Call} {call : Call}
    (hlast : lastWrite (on id) calls = some call) :
    lastWrite (through call.repo id) calls = some call := by
  induction calls using List.reverseRecOn with
  | nil => cases hlast
  | append_singleton earlier last ih =>
      rw [lastWrite_append] at hlast ⊢
      by_cases hid : last.id = id
      · have hon : lastWrite (on id) [last] = some last := by simp [lastWrite, on, hid]
        rw [hon, Option.some_or] at hlast
        obtain rfl := Option.some.inj hlast
        have hthrough : lastWrite (through last.repo id) [last] = some last := by
          simp [lastWrite, through, hid]
        rw [hthrough, Option.some_or]
      · have hon : lastWrite (on id) [last] = none := by simp [lastWrite, on, hid]
        have hthrough : lastWrite (through call.repo id) [last] = none := by
          simp [lastWrite, through, hid]
        rw [hon, Option.none_or] at hlast
        rw [hthrough, Option.none_or]
        exact ih hlast

end Call

section Text

variable (texts : TextForms)

namespace Call

/-- The row of `releases` a call leaves for its object. -/
def row : Call → Option ReleaseRow
  | update repo _ head release => some ⟨repo, head, (releaseForm texts).write release⟩
  | remove _ _ => none

/-- The rows of `locations` a call leaves for its object and repository. -/
def rows : Call → Set LocationRow
  | update repo id _ release => {row | row ∈ locationRows texts repo id release}
  | remove _ _ => ∅

end Call

namespace Store

def call (store : Store) : Call → Store
  | .update repo id head release => store.update texts repo id head release
  | .remove repo id => store.remove repo id

/-- Apply the calls in order. -/
def run (store : Store) (calls : List Call) : Store :=
  calls.foldl (call texts) store

/-- The release is stored for the repository under the id. -/
def Stores (store : Store) (repo : RepoId) (id : ReleaseId) (release : Release) : Prop :=
  ∃ head, store.releases[id]? = some ⟨repo, head, (releaseForm texts).write release⟩

/-- The location rows are the flattenings of the stored releases. -/
structure Indexed (store : Store) : Prop where
  stored : ∀ repo id release, store.Stores texts repo id release →
    store.locationsOf repo id = {row | row ∈ locationRows texts repo id release}
  absent : ∀ repo id, (∀ release, ¬store.Stores texts repo id release) →
    store.locationsOf repo id = ∅
  nodup : store.locations.Nodup

/-! ## What a run leaves -/

theorem releases_call (store : Store) (call : Call) (id : ReleaseId) :
    (store.call texts call).releases[id]? =
      ((call.on id).map (Call.row texts)).getD store.releases[id]? := by
  rw [Call.on]
  cases call with
  | update repo named head release =>
      by_cases hid : named = id
      · simp [Store.call, releases_update, Call.id, Call.row, hid]
      · simp [Store.call, releases_update, Call.id, hid, Ne.symm hid]
  | remove repo named =>
      by_cases hid : named = id
      · simp [Store.call, releases_remove, Call.id, Call.row, hid]
      · simp [Store.call, releases_remove, Call.id, hid, Ne.symm hid]

theorem locationsOf_call (store : Store) (call : Call) (repo : RepoId) (id : ReleaseId) :
    (store.call texts call).locationsOf repo id =
      ((call.through repo id).map (Call.rows texts)).getD (store.locationsOf repo id) := by
  rw [Call.through]
  by_cases hown : call.repo = repo ∧ call.id = id
  · obtain ⟨rfl, rfl⟩ := hown
    rw [if_pos ⟨rfl, rfl⟩]
    cases call with
    | update repo named head release => exact locationsOf_update store repo named head release
    | remove repo named => exact locationsOf_remove store repo named
  · rw [if_neg hown]
    have hne : ¬(repo = call.repo ∧ id = call.id) := fun heq => hown ⟨heq.1.symm, heq.2.symm⟩
    cases call with
    | update named target head release => exact locationsOf_update_of_ne store hne head release
    | remove named target => exact locationsOf_remove_of_ne store hne

theorem releases_run (calls : List Call) (id : ReleaseId) :
    (run texts ∅ calls).releases[id]? = (lastWrite (Call.on id) calls).bind (Call.row texts) := by
  have hread := read_foldl_eq_lastWrite (call texts) (fun store => store.releases[id]?)
    (fun call => (call.on id).map (Call.row texts)) (fun _ => True) (fun _ _ _ => trivial)
    (fun store call _ => releases_call texts store call id) calls ∅ trivial
  rw [lastWrite_map] at hread
  rw [run, hread]
  cases lastWrite (Call.on id) calls with
  | none => exact Std.ExtTreeMap.getElem?_empty
  | some call => rfl

theorem locationsOf_empty (repo : RepoId) (id : ReleaseId) :
    (∅ : Store).locationsOf repo id = ∅ :=
  Set.eq_empty_iff_forall_notMem.mpr fun _ hrow => List.not_mem_nil hrow.1

theorem locationsOf_run (calls : List Call) (repo : RepoId) (id : ReleaseId) :
    (run texts ∅ calls).locationsOf repo id =
      (lastWrite (Call.through repo id) calls).elim ∅ (Call.rows texts) := by
  have hread := read_foldl_eq_lastWrite (call texts) (fun store => store.locationsOf repo id)
    (fun call => (call.through repo id).map (Call.rows texts)) (fun _ => True)
    (fun _ _ _ => trivial) (fun store call _ => locationsOf_call texts store call repo id)
    calls ∅ trivial
  rw [lastWrite_map] at hread
  rw [run, hread]
  cases lastWrite (Call.through repo id) calls with
  | none => exact locationsOf_empty repo id
  | some call => rfl

end Store

theorem nodup_insertLocation {rows : List LocationRow} (hrows : rows.Nodup) (row : LocationRow) :
    (insertLocation rows row).Nodup := by
  rw [insertLocation]
  split
  · exact hrows
  · rename_i habsent
    exact List.concat_eq_append ▸ hrows.concat habsent

theorem nodup_foldl_insertLocation {rows new : List LocationRow} (hrows : rows.Nodup) :
    (new.foldl insertLocation rows).Nodup := by
  induction new generalizing rows with
  | nil => exact hrows
  | cons row new ih => exact ih (nodup_insertLocation hrows row)

namespace Store

theorem nodup_locations_call {store : Store} (hstore : store.locations.Nodup) (call : Call) :
    (store.call texts call).locations.Nodup := by
  cases call with
  | update repo id head release => exact nodup_foldl_insertLocation (hstore.filter _)
  | remove repo id => exact hstore.filter _

theorem nodup_locations_run (calls : List Call) : (run texts ∅ calls).locations.Nodup := by
  induction calls using List.reverseRecOn with
  | nil => exact List.nodup_nil
  | append_singleton earlier last ih =>
      rw [run, List.foldl_append]
      exact nodup_locations_call texts ih last

/-! ## The representation invariant -/

/-- A call that leaves location rows and is the last one for its object through its
repository is the last one for its object through any. -/
def Undisturbed (calls : List Call) : Prop :=
  ∀ repo id call, lastWrite (Call.through repo id) calls = some call →
    (call.rows texts).Nonempty → lastWrite (Call.on id) calls = some call

theorem stores_run_iff {calls : List Call} {repo : RepoId} {id : ReleaseId} {release : Release} :
    (run texts ∅ calls).Stores texts repo id release ↔
      ∃ head, lastWrite (Call.on id) calls = some (.update repo id head release) := by
  rw [Stores]
  refine exists_congr fun head => ?_
  rw [releases_run, Option.bind_eq_some_iff]
  constructor
  · rintro ⟨call, hlast, hrow⟩
    have hid := Call.last_on hlast
    cases call with
    | remove owner named => cases hrow
    | update owner named token stored =>
        obtain ⟨rfl, rfl, hwritten⟩ := ReleaseRow.mk.inj (Option.some.inj hrow)
        have hread := congrArg (releaseForm texts).read hwritten
        rw [(releaseForm texts).read_write, (releaseForm texts).read_write] at hread
        rw [hlast, ← Option.some.inj hread, show named = id from hid]
  · intro hlast
    exact ⟨_, hlast, rfl⟩

theorem undisturbed_of_indexed {calls : List Call} (hindexed : (run texts ∅ calls).Indexed texts) :
    Undisturbed texts calls := by
  intro repo id call hlast hrows
  have hleft : (run texts ∅ calls).locationsOf repo id = call.rows texts := by
    rw [locationsOf_run, hlast, Option.elim_some]
  by_contra hdisturbed
  have hnone : ∀ release, ¬(run texts ∅ calls).Stores texts repo id release := by
    intro release hstores
    obtain ⟨head, hon⟩ := (stores_run_iff texts).mp hstores
    have hthrough := Call.through_of_last_on hon
    rw [Call.repo, hlast] at hthrough
    exact hdisturbed (hthrough ▸ hon)
  rw [hindexed.absent repo id hnone] at hleft
  exact Set.not_nonempty_empty (hleft ▸ hrows)

theorem indexed_of_undisturbed {calls : List Call} (hundisturbed : Undisturbed texts calls) :
    (run texts ∅ calls).Indexed texts where
  stored repo id release hstores := by
    obtain ⟨head, hon⟩ := (stores_run_iff texts).mp hstores
    have hthrough := Call.through_of_last_on hon
    rw [Call.repo] at hthrough
    rw [locationsOf_run, hthrough, Option.elim_some, Call.rows]
  absent repo id hnone := by
    by_contra hrows
    rw [locationsOf_run] at hrows
    cases hlast : lastWrite (Call.through repo id) calls with
    | none => exact hrows (by rw [hlast, Option.elim_none])
    | some call =>
        rw [hlast, Option.elim_some] at hrows
        have hon := hundisturbed repo id call hlast (Set.nonempty_iff_ne_empty.mpr hrows)
        obtain ⟨rfl, rfl⟩ := Call.last_through hlast
        cases call with
        | remove owner named => exact hrows rfl
        | update owner named head release =>
            exact hnone release ((stores_run_iff texts).mpr ⟨head, hon⟩)
  nodup := nodup_locations_run texts calls

/-- The two tables agree after a run exactly when no call was disturbed. -/
theorem indexed_run_iff (calls : List Call) :
    (run texts ∅ calls).Indexed texts ↔ Undisturbed texts calls :=
  ⟨undisturbed_of_indexed texts, indexed_of_undisturbed texts⟩

end Store

end Text

/-- One object cached for two repositories: the second write takes the release over and
leaves the location rows of the first. -/
theorem overtaken_update_leaves_rows :
    let did : Did := .filled 32 1
    let cid := blake3HashToCid (.filled 32 7) .blob
    let release := (Release.new (.filled 20 5) none did 5).action did (.registerArtifact cid "app")
    let texts := TextForms.sample did
      "did:key:z6MkeXBLjYiSvqnhFb6D7sHm8yKm4jV45wwBFRaatf1cfZ76" cid
      "bafkr4iaha4dqobyha4dqobyha4dqobyha4dqobyha4dqobyha4dqobyha4" (by decide) (by decide)
    ¬(Store.run texts ∅
      [.update (.filled 20 1) (.filled 20 6) "v2:06" release,
        .update (.filled 20 2) (.filled 20 6) "v2:06" release]).Indexed texts := by
  intro did cid release texts hindexed
  have hlast := Store.undisturbed_of_indexed texts hindexed (.filled 20 1) (.filled 20 6)
    (.update (.filled 20 1) (.filled 20 6) "v2:06" release) rfl ?_
  · have hrepos := congrArg (Option.map Call.repo) hlast
    exact absurd (Option.some.inj hrepos) (by decide)
  · have hartifact : release.artifact cid = some (.register did "app") :=
      Release.artifact_action_of_none rfl ⟨did, .registerArtifact cid "app"⟩
    refine ⟨⟨.filled 20 1, cid, .filled 20 6, "", ""⟩, mem_locationRows_iff.mpr ⟨_, hartifact, ?_⟩⟩
    exact List.mem_singleton_self _

end RadicleArtifact.Cache
