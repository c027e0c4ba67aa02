import RadicleArtifact.Cache.Run

/-!
# Node-wide lookups

An index asks every repository in storage in turn, all of them through one cache.  What one
repository's turn does to the cache can spoil the answer of another when both hold an
object, or when one is asked for an object of the other.  Where every object stays at home
in one repository, the index finds what git holds, no more and no less.
-/

namespace RadicleArtifact.Cache

open RadicleArtifact.Core
open RadicleArtifact.Library
open RadicleArtifact.Cob
open RadicleArtifact.Releases

/-- A discovery location for a CID, with the repository and release it came from. -/
structure Location where
  repo : RepoId
  releaseId : ReleaseId
  did : Did
  url : Url

/-- A release that contains a given CID, with the repository it lives in. -/
structure ReleaseMatch where
  repo : RepoId
  releaseId : ReleaseId
  release : Release

/-- The repositories of a node: in storage order, and whether each opens. -/
structure Storage where
  repositories : Except String (List RepoId)
  opens : RepoId → Bool

section Lookups

variable (texts : TextForms) (cobs : CobStore) (storage : Storage) (refs : RepoId → Refs)

/-- Ask one repository after the other.  One that fails to open or to answer is skipped. -/
def sweep {Item Found : Type} (tag : RepoId → Item → Found)
    (look : Repository → Option Store → Except StoreError (List Item) × Option Store) :
    List RepoId → Option Store → List Found × Option Store
  | [], cache => ([], cache)
  | repo :: repos, cache =>
      if storage.opens repo then
        let (result, cache) := look ⟨repo, refs repo⟩ cache
        let (out, cache) := sweep tag look repos cache
        match result with
        | .ok items => (items.map (tag repo) ++ out, cache)
        | .error _ => (out, cache)
      else sweep tag look repos cache

/-- `locations_for`, with the cache when there is one. -/
def lookLocations (cid : Cid) (repo : Repository) :
    Option Store → Except StoreError (List (ReleaseId × Did × Url)) × Option Store
  | some store =>
      let (result, store) := Cache.locationsFor texts cobs repo cid store
      (result, some store)
  | none => (Releases.locationsFor cid (repo.storeAll cobs), none)

/-- `find_by_cid`, with the cache when there is one. -/
def lookReleases (cid : Cid) (repo : Repository) :
    Option Store → Except StoreError (List (ReleaseId × Release)) × Option Store
  | some store =>
      let (result, store) := Cache.findByCid texts cobs repo cid store
      (result, some store)
  | none => (Releases.findByCid cid (repo.storeAll cobs), none)

/-- Every discovery location for `cid` across all repositories. -/
def locationsByCid (cid : Cid) (cache : Option Store) :
    Except String (List Location) × Option Store :=
  match storage.repositories with
  | .error err => (.error err, cache)
  | .ok repos =>
      let (out, cache) := sweep storage refs
        (fun repo found => (⟨repo, found.1, found.2.1, found.2.2⟩ : Location))
        (lookLocations texts cobs cid) repos cache
      (.ok out, cache)

/-- Every release containing `cid` across all repositories. -/
def releasesByCid (cid : Cid) (cache : Option Store) :
    Except String (List ReleaseMatch) × Option Store :=
  match storage.repositories with
  | .error err => (.error err, cache)
  | .ok repos =>
      let (out, cache) := sweep storage refs
        (fun repo found => (⟨repo, found.1, found.2⟩ : ReleaseMatch))
        (lookReleases texts cobs cid) repos cache
      (.ok out, cache)

end Lookups

/-! ## Objects at home -/

/-- Rows of both tables are the home repository's, and no location row is without its
release row. -/
structure AtHome (home : ReleaseId → RepoId) (store : Store) : Prop where
  releases : ∀ id row, store.releases[id]? = some row → row.repo = home id
  locations : ∀ row ∈ store.locations, row.repo = home row.release ∧
    ∃ release, store.releases[row.release]? = some release

/-- A repository has refs to objects at home in it only. -/
def RefsAtHome (home : ReleaseId → RepoId) (repo : RepoId) (refs : Refs) : Prop :=
  ∀ id ∈ refs.keys, home id = repo

section Home

variable {texts : TextForms} {cobs : CobStore} {home : ReleaseId → RepoId} {store : Store}

theorem atHome_empty : AtHome home ∅ where
  releases id row hrow := by
    have hnone : (∅ : Store).releases[id]? = none := Std.ExtTreeMap.getElem?_empty
    simp [hnone] at hrow
  locations row hrow := by
    have hempty : row ∈ ([] : List LocationRow) := hrow
    simp at hempty

theorem AtHome.update (hstore : AtHome home store) {repo : RepoId} {id : ReleaseId}
    (hhome : home id = repo) (head : String) (release : Release) :
    AtHome home (store.update texts repo id head release) where
  releases wanted row hrow := by
    rw [Store.releases_update] at hrow
    by_cases hwanted : wanted = id
    · rw [if_pos hwanted] at hrow
      obtain rfl := Option.some.inj hrow
      rw [hwanted, hhome]
    · rw [if_neg hwanted] at hrow
      exact hstore.releases wanted row hrow
  locations row hrow := by
    rw [Store.releases_update]
    rcases Store.mem_locations_update.mp hrow with ⟨hold, -⟩ | hnew
    · obtain ⟨howner, found, hfound⟩ := hstore.locations row hold
      refine ⟨howner, ?_⟩
      by_cases hid : row.release = id
      · exact ⟨_, if_pos hid⟩
      · exact ⟨found, by rw [if_neg hid, hfound]⟩
    · obtain ⟨howner, hid⟩ := owner_of_mem_locationRows hnew
      exact ⟨by rw [howner, hid, hhome], _, if_pos hid⟩

/-- Removing through the home repository takes the location rows along. -/
theorem AtHome.remove (hstore : AtHome home store) {repo : RepoId} {id : ReleaseId}
    (hhome : home id = repo) : AtHome home (store.remove repo id) where
  releases wanted row hrow := by
    rw [Store.releases_remove] at hrow
    by_cases hwanted : wanted = id
    · simp [hwanted] at hrow
    · rw [if_neg hwanted] at hrow
      exact hstore.releases wanted row hrow
  locations row hrow := by
    rw [Store.remove, mem_deleteLocations] at hrow
    obtain ⟨hold, hkept⟩ := hrow
    obtain ⟨howner, found, hfound⟩ := hstore.locations row hold
    refine ⟨howner, found, ?_⟩
    have hid : row.release ≠ id := by
      intro heq
      exact hkept ⟨by rw [howner, heq, hhome], heq⟩
    rw [Store.releases_remove, if_neg hid, hfound]

variable {repo : Repository}

theorem AtHome.refreshRepo (hstore : AtHome home store)
    (hrefs : RefsAtHome home repo.id repo.refs) :
    AtHome home (refreshRepo texts cobs repo store) := by
  have hcached : ∀ id ∈ (store.heads repo.id).keys, home id = repo.id := by
    intro id hid
    obtain ⟨row, hrow, howner⟩ := Store.mem_heads_iff.mp (Std.ExtTreeMap.mem_keys.mp hid)
    rw [← hstore.releases id row hrow, howner]
  have hobjects : AtHome home
      (repo.refs.entries.foldl (refreshObject texts cobs repo (store.heads repo.id)) store) := by
    apply List.foldlRecOn repo.refs.entries _ hstore
    intro earlier hearlier entry hentry
    have hhome := hrefs entry.1 (List.mem_map_of_mem hentry)
    rw [refreshObject]
    split
    · exact hearlier
    · split
      · exact hearlier.update hhome _ _
      · exact hearlier.remove hhome
      · exact hearlier
  rw [Cache.refreshRepo]
  apply List.foldlRecOn _ _ hobjects
  intro earlier hearlier id hid
  rw [pruneObject]
  split
  · exact hearlier
  · exact hearlier.remove (hcached id hid)

theorem AtHome.cachedGet (hstore : AtHome home store) {id : ReleaseId}
    (hhome : home id = repo.id) : AtHome home (cachedGet texts cobs repo id store).2 := by
  have hrebuild : ∀ tips, AtHome home (rebuild texts cobs repo id tips store).2 := by
    intro tips
    rw [rebuild]
    split
    · exact hstore
    · exact hstore.update hhome _ _
    · exact hstore.remove hhome
  rw [Cache.cachedGet]
  split
  · exact hstore.remove hhome
  · split
    · split
      · exact hstore
      · exact hrebuild _
    · exact hrebuild _
    · exact hrebuild _
    · exact hstore

/-- Refs and reads of single objects stay at home. -/
def Step.AtHome (home : ReleaseId → RepoId) : Step → Prop
  | .git repo refs => RefsAtHome home repo refs
  | .read repo (.get id) => home id = repo
  | .read _ _ => True

/-- Refs and cache are at home. -/
structure State.AtHome (home : ReleaseId → RepoId) (state : State) : Prop where
  refs : ∀ repo, RefsAtHome home repo (state.refs repo)
  store : Cache.AtHome home state.store

theorem State.AtHome.step {state : State} (hstate : state.AtHome home) {step : Step}
    (hstep : step.AtHome home) : (state.step texts cobs step).AtHome home := by
  cases step with
  | git changed refs =>
      refine ⟨fun repo => ?_, hstate.store⟩
      show RefsAtHome home repo (Function.update state.refs changed refs repo)
      by_cases hrepo : repo = changed
      · rw [hrepo, Function.update_self]
        exact hstep
      · rw [Function.update_of_ne hrepo]
        exact hstate.refs repo
  | read repo read =>
      refine ⟨hstate.refs, ?_⟩
      cases read with
      | get id => exact hstate.store.cachedGet hstep
      | all | findByCid cid | locationsFor cid | counts delegates =>
          exact hstate.store.refreshRepo (hstate.refs repo)

theorem State.AtHome.run {start : State} (hstart : start.AtHome home) {steps : List Step}
    (hsteps : ∀ step ∈ steps, step.AtHome home) :
    (start.run texts cobs steps).AtHome home :=
  List.foldlRecOn steps _ hstart fun _ hstate step hstep => hstate.step (hsteps step hstep)

/-- At home, a location row always has the release row that prunes it. -/
theorem AtHome.noOrphan (hstore : AtHome home store) (cid : Cid) : NoOrphan repo cid store := by
  intro row hrow howner hcid hurl
  obtain ⟨hhome, release, hrelease⟩ := hstore.locations row hrow
  refine .inr ⟨release, hrelease, ?_⟩
  rw [hstore.releases _ _ hrelease, ← hhome, howner]

/-! ## The whole node -/

/-- When every turn finds what it should, the sweep finds all of it. -/
theorem mem_sweep_iff {Item Found : Type} {storage : Storage} {refs : RepoId → Refs}
    {tag : RepoId → Item → Found}
    {look : Repository → Option Store → Except StoreError (List Item) × Option Store}
    {right : Option Store → Prop} {holds : RepoId → Item → Prop}
    (hlook : ∀ repo cache, right cache →
      (∃ items, (look ⟨repo, refs repo⟩ cache).1 = .ok items ∧
        ∀ item, item ∈ items ↔ holds repo item) ∧ right (look ⟨repo, refs repo⟩ cache).2)
    {repos : List RepoId} {cache : Option Store} (hcache : right cache) {found : Found} :
    found ∈ (sweep storage refs tag look repos cache).1 ↔
      ∃ repo ∈ repos, storage.opens repo = true ∧ ∃ item, holds repo item ∧
        tag repo item = found := by
  induction repos generalizing cache with
  | nil => simp [sweep]
  | cons repo repos ih =>
      rw [sweep]
      by_cases hopens : storage.opens repo
      · obtain ⟨⟨items, hitems, hholds⟩, hright⟩ := hlook repo cache hcache
        simp only [hopens, if_true, hitems, List.mem_append, List.mem_map, hholds, ih hright,
          List.exists_mem_cons_iff, true_and]
      · simp only [hopens, Bool.false_eq_true, if_false, ih hcache, List.exists_mem_cons_iff,
          false_and, false_or]

/-- The cache, if there is one, is coherent and at home. -/
def Right (texts : TextForms) (cobs : CobStore) (home : ReleaseId → RepoId) :
    Option Store → Prop
  | some store => Coherent texts cobs store ∧ AtHome home store
  | none => True

variable {refs : RepoId → Refs}

theorem lookLocations_right (hmaterializes : ∀ repo, Repository.Materializes cobs ⟨repo, refs repo⟩)
    (hrefs : ∀ repo, RefsAtHome home repo (refs repo)) (cid : Cid) (repo : RepoId)
    (cache : Option Store) (hcache : Right texts cobs home cache) :
    (∃ items, (lookLocations texts cobs cid ⟨repo, refs repo⟩ cache).1 = .ok items ∧
      ∀ item, item ∈ items ↔ ∃ entry ∈ Repository.cobList cobs ⟨repo, refs repo⟩,
        item ∈ locationsIn cid entry.1 entry.2) ∧
      Right texts cobs home (lookLocations texts cobs cid ⟨repo, refs repo⟩ cache).2 := by
  cases cache with
  | none =>
      refine ⟨⟨_, locationsFor_map_ok cid _, fun item => ?_⟩, trivial⟩
      rw [List.mem_flatMap]
  | some store =>
      obtain ⟨hcoherent, hstore⟩ := hcache
      refine ⟨?_, hcoherent.refreshRepo, hstore.refreshRepo (hrefs repo)⟩
      obtain ⟨found, expected, hfound, hexpected, hiff⟩ :=
        locationsFor_mem_iff hcoherent (hmaterializes repo) cid
      rw [Repository.storeAll, locationsFor_map_ok] at hexpected
      obtain rfl := Except.ok.inj hexpected
      refine ⟨found, hfound, fun item => ?_⟩
      rw [hiff.mpr (hstore.noOrphan cid) item, List.mem_flatMap]

theorem lookReleases_right (hmaterializes : ∀ repo, Repository.Materializes cobs ⟨repo, refs repo⟩)
    (hrefs : ∀ repo, RefsAtHome home repo (refs repo)) (cid : Cid) (repo : RepoId)
    (cache : Option Store) (hcache : Right texts cobs home cache) :
    (∃ items, (lookReleases texts cobs cid ⟨repo, refs repo⟩ cache).1 = .ok items ∧
      ∀ item, item ∈ items ↔ item ∈ Repository.cobList cobs ⟨repo, refs repo⟩ ∧
        (item.2.artifact cid).isSome) ∧
      Right texts cobs home (lookReleases texts cobs cid ⟨repo, refs repo⟩ cache).2 := by
  cases cache with
  | none =>
      refine ⟨⟨_, findByCid_map_ok cid _, fun item => ?_⟩, trivial⟩
      rw [List.mem_filter]
  | some store =>
      obtain ⟨hcoherent, hstore⟩ := hcache
      refine ⟨?_, hcoherent.refreshRepo, hstore.refreshRepo (hrefs repo)⟩
      obtain ⟨entries, hentries, hmem⟩ := findByCid_mem hcoherent (hmaterializes repo) cid
      exact ⟨entries, hentries, fun item => hmem item.1 item.2⟩

end Home

/-- To the cache, a lookup is the reads of the repositories it opens, one after the other. -/
theorem cache_of_sweep {Item Found : Type} {texts : TextForms} {cobs : CobStore}
    {storage : Storage} {tag : RepoId → Item → Found} {read : Read}
    {look : Repository → Option Store → Except StoreError (List Item) × Option Store}
    (hlook : ∀ repo store,
      (look repo (some store)).2 = some (read.throughCache texts cobs repo store).2)
    (repos : List RepoId) (state : State) :
    (sweep storage state.refs tag look repos (some state.store)).2 =
      some (state.run texts cobs
        ((repos.filter storage.opens).map fun repo => .read repo read)).store := by
  induction repos generalizing state with
  | nil => rfl
  | cons repo repos ih =>
      rw [sweep]
      by_cases hopens : storage.opens repo
      · have hrest := ih (state.step texts cobs (.read repo read))
        have hturn : (look ⟨repo, state.refs repo⟩ (some state.store)).2 =
            some (state.step texts cobs (.read repo read)).store :=
          hlook ⟨repo, state.refs repo⟩ state.store
        rw [if_pos hopens, List.filter_cons, if_pos hopens, List.map_cons, State.run,
          List.foldl_cons]
        simp only [hturn]
        split <;> exact hrest
      · rw [if_neg hopens, List.filter_cons, if_neg hopens]
        exact ih state

theorem cache_of_locationsByCid (texts : TextForms) (cobs : CobStore) (storage : Storage)
    (repos : List RepoId) (hrepos : storage.repositories = .ok repos) (state : State) (cid : Cid) :
    (locationsByCid texts cobs storage state.refs cid (some state.store)).2 =
      some (state.run texts cobs
        ((repos.filter storage.opens).map fun repo => .read repo (.locationsFor cid))).store := by
  rw [locationsByCid, hrepos]
  exact cache_of_sweep (fun _ _ => rfl) repos state

theorem cache_of_releasesByCid (texts : TextForms) (cobs : CobStore) (storage : Storage)
    (repos : List RepoId) (hrepos : storage.repositories = .ok repos) (state : State) (cid : Cid) :
    (releasesByCid texts cobs storage state.refs cid (some state.store)).2 =
      some (state.run texts cobs
        ((repos.filter storage.opens).map fun repo => .read repo (.findByCid cid))).store := by
  rw [releasesByCid, hrepos]
  exact cache_of_sweep (fun _ _ => rfl) repos state

/-- As long as every object is at home in one repository, and is asked for there, an index
finds exactly the locations and the releases that git holds in the repositories that open,
with or without a cache and whatever was read and changed before. -/
theorem index_finds_what_git_holds (texts : TextForms) (cobs : CobStore)
    (home : ReleaseId → RepoId) (refs : RepoId → Refs) (steps : List Step) (storage : Storage)
    (repos : List RepoId) (cid : Cid) (hrepos : storage.repositories = .ok repos)
    (hstart : State.Materializes cobs ⟨refs, ∅⟩) (hsteps : ∀ step ∈ steps, step.Materializes cobs)
    (hrefs : ∀ repo, RefsAtHome home repo (refs repo))
    (hhome : ∀ step ∈ steps, step.AtHome home) :
    let state := State.run texts cobs ⟨refs, ∅⟩ steps
    ∀ cache, cache = none ∨ cache = some state.store →
      (∃ locations, (locationsByCid texts cobs storage state.refs cid cache).1 = .ok locations ∧
        ∀ location, location ∈ locations ↔
          location.repo ∈ repos ∧ storage.opens location.repo = true ∧
            ∃ entry ∈ (state.repository location.repo).cobList cobs,
              (location.releaseId, location.did, location.url) ∈
                locationsIn cid entry.1 entry.2) ∧
      ∃ matched, (releasesByCid texts cobs storage state.refs cid cache).1 = .ok matched ∧
        ∀ found, found ∈ matched ↔
          found.repo ∈ repos ∧ storage.opens found.repo = true ∧
            (found.releaseId, found.release) ∈ (state.repository found.repo).cobList cobs ∧
              (found.release.artifact cid).isSome := by
  intro state cache hcache
  have hstate : state.AtHome home := State.AtHome.run ⟨hrefs, atHome_empty⟩ hhome
  have hmaterializes : state.Materializes cobs :=
    List.foldlRecOn steps _ hstart fun _ hearlier step hstep =>
      materializes_step hearlier (hsteps step hstep)
  have hright : Right texts cobs home cache := by
    rcases hcache with rfl | rfl
    · trivial
    · exact ⟨coherent_run coherent_empty steps, hstate.store⟩
  constructor
  · refine ⟨_, by rw [locationsByCid, hrepos], fun location => ?_⟩
    rw [mem_sweep_iff (lookLocations_right hmaterializes hstate.refs cid) hright]
    constructor
    · rintro ⟨repo, hrepo, hopens, item, hheld, rfl⟩
      exact ⟨hrepo, hopens, hheld⟩
    · rintro ⟨hrepo, hopens, hheld⟩
      exact ⟨location.repo, hrepo, hopens, _, hheld, rfl⟩
  · refine ⟨_, by rw [releasesByCid, hrepos], fun found => ?_⟩
    rw [mem_sweep_iff (lookReleases_right hmaterializes hstate.refs cid) hright]
    constructor
    · rintro ⟨repo, hrepo, hopens, item, hheld, rfl⟩
      exact ⟨hrepo, hopens, hheld⟩
    · rintro ⟨hrepo, hopens, hheld⟩
      exact ⟨found.repo, hrepo, hopens, (found.releaseId, found.release), hheld, rfl⟩

section Sample

/-- A release with one located artifact. -/
def sampleDid : Did := .filled 32 1

def sampleCid : Cid := blake3HashToCid (.filled 32 7) .blob

def sampleUrl : Url := ⟨"https://example.com/app", by decide⟩

def sampleRoot : Op :=
  ⟨sampleDid, [.create (.filled 20 5) none, .registerArtifact sampleCid "app",
    .addLocation sampleCid sampleUrl], 5⟩

noncomputable def sampleTexts : TextForms :=
  .sample sampleDid "did:key:z6MkeXBLjYiSvqnhFb6D7sHm8yKm4jV45wwBFRaatf1cfZ76" sampleCid
    "bafkr4iaha4dqobyha4dqobyha4dqobyha4dqobyha4dqobyha4dqobyha4" (by decide) (by decide)

def sampleCobs : CobStore :=
  .always ((Release.new (.filled 20 5) none sampleDid 5).run (Release.history sampleRoot []))
    ⟨fun _ => .ok (), sampleRoot, [], rfl⟩

def sampleRefs : Refs :=
  .collect [(.filled 20 6, ⟨[.filled 20 6], by simp⟩)]

/-- One of two repositories holds the release, and the other does not open. -/
theorem index_finds_what_git_holds_of_one :
    let repo : RepoId := .filled 20 1
    let storage : Storage := ⟨.ok [.filled 20 2, repo], fun other => other = repo⟩
    let state := State.run sampleTexts sampleCobs ⟨fun _ => ∅, ∅⟩
      [.git repo sampleRefs, .read repo .all]
    ∃ locations, (locationsByCid sampleTexts sampleCobs storage state.refs sampleCid
        (some state.store)).1 = .ok locations ∧
      (⟨repo, .filled 20 6, sampleDid, sampleUrl⟩ : Location) ∈ locations := by
  intro repo storage state
  have hhome : RefsAtHome (fun _ => repo) repo sampleRefs := fun _ _ => rfl
  obtain ⟨⟨locations, hlocations, hmem⟩, -⟩ := index_finds_what_git_holds sampleTexts sampleCobs
    (fun _ => repo) (fun _ => ∅) [.git repo sampleRefs, .read repo .all] storage _ sampleCid rfl
    (State.materializes_always _ _) (fun step _ => step.materializes_always _)
    (fun other id hid => absurd hid (by simp [IndexMap.keys]))
    (by
      intro step hstep
      rcases List.mem_cons.mp hstep with rfl | hread
      · exact hhome
      · obtain rfl := List.mem_singleton.mp hread
        trivial)
    (some state.store) (.inr rfl)
  refine ⟨locations, hlocations, (hmem _).mpr ⟨by simp, by simp [storage], ?_⟩⟩
  refine ⟨(.filled 20 6, _), List.mem_singleton_self _, ?_⟩
  exact List.mem_singleton_self _

/-- Asking a repository for an object of another takes the release row away and leaves the
location rows: once the object is gone, they are found all the same. -/
theorem foreign_get_outlives_object :
    let first : RepoId := .filled 20 1
    let second : RepoId := .filled 20 2
    ¬ EveryRead sampleTexts sampleCobs (ReadRight sampleTexts sampleCobs) ⟨fun _ => ∅, ∅⟩
      [.git first sampleRefs, .read first .all, .read second (.get (.filled 20 6)),
        .git first ∅, .read first (.locationsFor sampleCid)] := by
  intro first second hright
  have hmeets := (everyRead_right_iff coherent_empty (State.materializes_always _ _)
    fun step _ => step.materializes_always _).mp hright
  have hstale : locationRow sampleTexts first sampleCid (.filled 20 6) sampleDid sampleUrl ∈
      [locationRow sampleTexts first sampleCid (.filled 20 6) sampleDid sampleUrl] :=
    List.mem_cons_self
  have horphan : NoOrphan ⟨first, ∅⟩ sampleCid _ := hmeets.2.2.1
  rcases horphan _ hstale rfl rfl sampleUrl.serialization_ne_empty with hrefs | ⟨row, hrow, -⟩
  · simp [IndexMap.keys] at hrefs
  · have hnone : (none : Option ReleaseRow) = some row := hrow
    contradiction

end Sample

end RadicleArtifact.Cache
