import RadicleArtifact.Cache.Coherence
import RadicleArtifact.Cob.Invariants
import RadicleArtifact.Library.Fallible

/-!
# Cached reads against git

From a coherent cache, for a repository whose objects all materialize, each read
is compared with the same read of git.  All but the location lookup agree in any
coherent state.  The location lookup agrees exactly when no location row of the
repository has outlived its release row.
-/

namespace RadicleArtifact.Cache

open RadicleArtifact.Core
open RadicleArtifact.Library
open RadicleArtifact.Cob
open RadicleArtifact.Releases

variable {texts : TextForms} {cobs : CobStore} {repo : Repository} {store : Store}

/-- A written release is parsed back as itself, when it is parsed at all. -/
theorem eq_of_parseReleaseRow_eq_ok {repoId : RepoId} {head : String}
    {release parsed : Release}
    (hparsed : Store.parseReleaseRow texts
      ⟨repoId, head, (releaseForm texts).write release⟩ = .ok parsed) : parsed = release := by
  rw [Store.parseReleaseRow, JsonForm.fromText_write] at hparsed
  split at hparsed
  · rename_i found hfound
    split at hfound
    · rw [← Except.ok.inj hparsed, Option.some.inj hfound]
    · cases hfound
  · cases hparsed

theorem get_of_mem_rows {id : ReleaseId} {row : ReleaseRow}
    (hrow : (id, row) ∈ store.rows repo.id) :
    store.get texts repo.id id =
      (Store.parseReleaseRow texts row).map fun release => some (row.head, release) := by
  obtain ⟨hrow, howner⟩ := Store.mem_rows.mp hrow
  rw [Store.get, hrow]
  exact if_pos howner

theorem get_eq_some_iff {id : ReleaseId} {head : String} {release : Release} :
    store.get texts repo.id id = .ok (some (head, release)) ↔
      ∃ row, (id, row) ∈ store.rows repo.id ∧ row.head = head ∧
        Store.parseReleaseRow texts row = .ok release := by
  simp only [Store.mem_rows, Store.get]
  cases store.releases[id]? with
  | none => simp
  | some row =>
      by_cases howner : row.repo = repo.id
      · cases hparsed : Store.parseReleaseRow texts row <;>
          simp [howner, hparsed, Except.map]
      · simp [howner]

theorem parseEntry_eq_ok_iff {entry : ReleaseId × ReleaseRow} {id : ReleaseId}
    {release : Release} :
    Store.parseEntry texts entry = .ok (id, release) ↔
      id = entry.1 ∧ Store.parseReleaseRow texts entry.2 = .ok release := by
  rw [Store.parseEntry, map_eq_ok_iff]
  simp [eq_comm, and_comm]

/-- An artifact always has a row, because no contributor's set of URLs is empty. -/
theorem exists_mem_artifactRows {id : ReleaseId} {cid : Cid} {artifact : Artifact}
    (hartifact : artifact.WellFormed) :
    ∃ row, row ∈ artifactRows texts repo.id id cid artifact := by
  rw [artifactRows]
  split
  · exact ⟨_, List.mem_singleton_self _⟩
  · rename_i hlocations
    obtain ⟨⟨did, urls⟩, hentry⟩ := List.exists_mem_of_ne_nil artifact.locations.toList
      (by simpa using hlocations)
    have hurls : urls ≠ ∅ := by
      rintro rfl
      exact hartifact.locations_nonempty did (BTreeMap.mem_toList.mp hentry)
    obtain ⟨url, hurl⟩ := List.exists_mem_of_ne_nil urls.toList (by simpa using hurls)
    exact ⟨_, List.mem_flatMap.mpr ⟨(did, urls), hentry, List.mem_map_of_mem hurl⟩⟩

theorem mem_holding {cid : Cid} {id found : ReleaseId} {cached : Option (String × Release)}
    {release : Release} :
    (id, release) ∈ holding cid found cached ↔
      id = found ∧ (∃ head, cached = some (head, release)) ∧
        (release.artifact cid).isSome := by
  cases cached with
  | none => simp [holding]
  | some entry =>
      obtain ⟨head, cached⟩ := entry
      rw [holding]
      split
      · rename_i hholds
        simp only [List.mem_singleton, Prod.mk.injEq, Option.some.injEq]
        constructor
        · rintro ⟨rfl, rfl⟩
          exact ⟨rfl, ⟨head, rfl, rfl⟩, hholds⟩
        · rintro ⟨rfl, ⟨-, -, rfl⟩, -⟩
          exact ⟨rfl, rfl⟩
      · rename_i hholds
        simp only [List.not_mem_nil, Prod.mk.injEq, Option.some.injEq, false_iff]
        rintro ⟨-, ⟨-, -, rfl⟩, hholds'⟩
        exact hholds hholds'

theorem wellFormed_of_mem_cobList {id : ReleaseId} {release : Release}
    (hrelease : (id, release) ∈ repo.cobList cobs) : release.WellFormed := by
  obtain ⟨tips, -, hmaterialize⟩ := Repository.mem_cobList.mp hrelease
  exact Release.wellFormed_of_replayed (cobs.replayed _ _ _ _ hmaterialize)

/-- The releases read one by one, when all of them could be. -/
theorem mem_of_getHolding_eq_ok {cid : Cid} {ids : List ReleaseId}
    {entries : List (ReleaseId × Release)}
    (hentries : getHolding texts repo store cid ids = .ok entries) {id : ReleaseId}
    {release : Release} :
    (id, release) ∈ entries ↔
      id ∈ ids ∧ (∃ head, store.get texts repo.id id = .ok (some (head, release))) ∧
        (release.artifact cid).isSome := by
  obtain ⟨found, hfound, rfl⟩ := map_eq_ok_iff.mp hentries
  rw [List.mem_flatten]
  constructor
  · rintro ⟨held, hheld, hmem⟩
    obtain ⟨wanted, hwanted, hget⟩ := (mem_of_mapM_eq_ok hfound).mp hheld
    obtain ⟨cached, hcached, rfl⟩ := map_eq_ok_iff.mp hget
    obtain ⟨rfl, ⟨head, rfl⟩, hholds⟩ := mem_holding.mp hmem
    exact ⟨hwanted, ⟨head, hcached⟩, hholds⟩
  · rintro ⟨hid, ⟨head, hget⟩, hholds⟩
    refine ⟨holding cid id (some (head, release)), (mem_of_mapM_eq_ok hfound).mpr
      ⟨id, hid, ?_⟩, mem_holding.mpr ⟨rfl, ⟨head, rfl⟩, hholds⟩⟩
    rw [hget]
    rfl

theorem exists_get_of_getHolding_eq_ok {cid : Cid} {ids : List ReleaseId}
    {entries : List (ReleaseId × Release)}
    (hentries : getHolding texts repo store cid ids = .ok entries) {id : ReleaseId}
    (hid : id ∈ ids) : ∃ cached, store.get texts repo.id id = .ok cached := by
  obtain ⟨found, hfound, -⟩ := map_eq_ok_iff.mp hentries
  obtain ⟨held, hheld⟩ := exists_ok_of_mapM_eq_ok hfound hid
  obtain ⟨cached, hcached, -⟩ := map_eq_ok_iff.mp hheld
  exact ⟨cached, hcached⟩

/-- A row that parses holds what git gives for the tips of its token. -/
theorem materialize_of_get_eq_some (hcoherent : Coherent texts cobs store) {id : ReleaseId}
    {tips : Tips} {cached : Release}
    (hget : store.get texts repo.id id = .ok (some (headToken tips.oids, cached))) :
    repo.materialize cobs id tips = .ok (some cached) := by
  obtain ⟨row, hrow, hhead, hparsed⟩ := get_eq_some_iff.mp hget
  obtain ⟨hrow, howner⟩ := Store.mem_rows.mp hrow
  obtain ⟨written, release, hmaterialize, hview⟩ := hcoherent.releases id row hrow
  rw [howner] at hmaterialize hview
  rw [Store.view, hrow] at hview
  have hfresh := Option.some.inj (congrArg Prod.fst hview)
  rw [hfresh] at hparsed hhead
  have hperm := perm_of_headToken_eq written.nonempty tips.nonempty hhead
  rw [Repository.materialize, ← List.toFinset_eq_of_perm _ _ hperm,
    eq_of_parseReleaseRow_eq_ok hparsed]
  exact hmaterialize

/-- A fresh row holds the release git would return. -/
theorem eq_of_get_eq_some (hcoherent : Coherent texts cobs store) {id : ReleaseId}
    {tips : Tips} {release cached : Release}
    (hmaterialize : repo.materialize cobs id tips = .ok (some release))
    (hget : store.get texts repo.id id = .ok (some (headToken tips.oids, cached))) :
    cached = release := by
  have hcached := materialize_of_get_eq_some hcoherent hget
  rw [hmaterialize] at hcached
  exact (Option.some.inj (Except.ok.inj hcached)).symm

/-- After a refresh, the location rows of a listed release are its own. -/
theorem mem_locations_refreshRepo (hcoherent : Coherent texts cobs store) {id : ReleaseId}
    {release : Release}
    (hrelease : (id, release) ∈ repo.cobList cobs) {row : LocationRow} :
    row ∈ (refreshRepo texts cobs repo store).locations ∧ row.repo = repo.id ∧
        row.release = id ↔
      row ∈ locationRows texts repo.id id release := by
  obtain ⟨tips, htips, hmaterialize⟩ := Repository.mem_cobList.mp hrelease
  have hview := view_refreshRepo_of_materialize hcoherent htips hmaterialize
  exact Set.ext_iff.mp (congrArg Prod.snd hview) row

section Reads

variable (hcoherent : Coherent texts cobs store) (hrepo : repo.Materializes cobs)

include hcoherent hrepo

/-- The row of a listed release holds it, if it can be parsed. -/
theorem mem_cobList_of_parse {id : ReleaseId} {row : ReleaseRow} {release : Release}
    (hrow : (id, row) ∈ (refreshRepo texts cobs repo store).rows repo.id)
    (hparsed : Store.parseReleaseRow texts row = .ok release) :
    (id, release) ∈ repo.cobList cobs := by
  obtain ⟨tips, written, htips, hmaterialize, rfl⟩ :=
    (mem_rows_refreshRepo hcoherent hrepo).mp hrow
  rw [eq_of_parseReleaseRow_eq_ok hparsed]
  exact Repository.mem_cobList.mpr ⟨tips, htips, hmaterialize⟩

/-- A listed release has a row that holds no other release. -/
theorem exists_row_of_mem_cobList {id : ReleaseId} {release : Release}
    (hrelease : (id, release) ∈ repo.cobList cobs) :
    ∃ row, (id, row) ∈ (refreshRepo texts cobs repo store).rows repo.id ∧
      ∀ parsed, Store.parseReleaseRow texts row = .ok parsed → parsed = release := by
  obtain ⟨tips, htips, hmaterialize⟩ := Repository.mem_cobList.mp hrelease
  exact ⟨_, (mem_rows_refreshRepo hcoherent hrepo).mpr
    ⟨tips, release, htips, hmaterialize, rfl⟩, fun _ => eq_of_parseReleaseRow_eq_ok⟩

/-- A listing that succeeds has the listed releases. -/
theorem perm_cobList_of_list_eq_ok {entries : List (ReleaseId × Release)}
    (hentries : (refreshRepo texts cobs repo store).list texts repo.id = .ok entries) :
    entries.Perm (repo.cobList cobs) := by
  have hkeys : entries.map Prod.fst =
      ((refreshRepo texts cobs repo store).rows repo.id).map Prod.fst :=
    map_of_mapM_eq_ok hentries fun entry result hresult =>
      (parseEntry_eq_ok_iff.mp hresult).1
  refine perm_of_nodup_keys ?_ Repository.nodup_keys_cobList fun ⟨id, release⟩ => ?_
  · rw [hkeys]
    exact Store.nodup_keys_rows _ _
  · rw [mem_of_mapM_eq_ok hentries]
    constructor
    · rintro ⟨⟨found, row⟩, hrow, hparse⟩
      obtain ⟨rfl, hparsed⟩ := parseEntry_eq_ok_iff.mp hparse
      exact mem_cobList_of_parse hcoherent hrepo hrow hparsed
    · intro hrelease
      obtain ⟨row, hrow, honly⟩ := exists_row_of_mem_cobList hcoherent hrepo hrelease
      obtain ⟨⟨found, parsed⟩, hparse⟩ := exists_ok_of_mapM_eq_ok hentries hrow
      obtain ⟨rfl, hparsed⟩ := parseEntry_eq_ok_iff.mp hparse
      obtain rfl := honly parsed hparsed
      exact ⟨_, hrow, hparse⟩

/-- `all` lists the releases git lists. -/
theorem all_perm : ∃ entries : List (ReleaseId × Release),
    (all texts cobs repo store).1 = .ok (entries.map .ok) ∧
      entries.Perm (repo.cobList cobs) := by
  rw [all, cachedAll]
  cases hlist : (refreshRepo texts cobs repo store).list texts repo.id with
  | ok entries => exact ⟨entries, rfl, perm_cobList_of_list_eq_ok hcoherent hrepo hlist⟩
  | error err => exact ⟨_, rfl, .refl _⟩

/-- `get` returns what git returns. -/
theorem get_eq (id : ReleaseId) :
    (get texts cobs repo id store).1 = repo.storeGet cobs id := by
  rw [get, cachedGet, Repository.storeGet]
  cases htips : repo.refs.get? id with
  | none => rfl
  | some tips =>
      obtain ⟨release, hmaterialize⟩ := hrepo id tips htips
      have hrebuild : ∀ git, orGit (rebuild texts cobs repo id tips store).1 git =
          .ok (some release) := by
        intro git
        rw [rebuild, hmaterialize]
        rfl
      simp only [hmaterialize]
      cases hget : store.get texts repo.id id with
      | error err =>
          cases err with
          | json => exact hrebuild _
          | parse => rfl
      | ok found =>
          cases found with
          | none => exact hrebuild _
          | some entry =>
              obtain ⟨head, cached⟩ := entry
              by_cases hhead : head = headToken tips.oids
              · subst hhead
                simp only [if_true]
                rw [eq_of_get_eq_some hcoherent hmaterialize hget]
                rfl
              · simp only [hhead, if_false]
                exact hrebuild _

/-- Counting does not depend on the order of the listing. -/
theorem counts_eq (delegates : BTreeSet Did) :
    (counts texts cobs repo delegates store).1 =
      .ok (Releases.counts delegates (repo.storeAll cobs)) := by
  obtain ⟨entries, hentries, hperm⟩ := all_perm hcoherent hrepo
  calc
    (counts texts cobs repo delegates store).1 =
        (all texts cobs repo store).1.map (Releases.counts delegates) := rfl
    _ = .ok (Releases.counts delegates (entries.map .ok)) := by
        rw [hentries, Except.map]
    _ = .ok (Releases.counts delegates (repo.storeAll cobs)) := by
        rw [counts_map_ok, Repository.storeAll, counts_map_ok]
        congr 1
        exact hperm.foldl_eq' (fun left _ right _ counts =>
          counts.count_comm delegates left.2 right.2) _

/-! ## Lookups by content identifier -/

/-- `find_by_cid` returns the releases git returns. -/
theorem findByCid_mem (cid : Cid) : ∃ entries : List (ReleaseId × Release),
    (findByCid texts cobs repo cid store).1 = .ok entries ∧
      ∀ id release, (id, release) ∈ entries ↔
        (id, release) ∈ repo.cobList cobs ∧ (release.artifact cid).isSome := by
  rw [findByCid, cachedFindByCid]
  cases hfound : getHolding texts repo (refreshRepo texts cobs repo store) cid
      ((refreshRepo texts cobs repo store).releasesForCid repo.id cid) with
  | error err =>
      refine ⟨(repo.cobList cobs).filter fun entry => (entry.2.artifact cid).isSome,
        findByCid_map_ok cid _, fun id release => ?_⟩
      rw [List.mem_filter]
  | ok entries =>
      refine ⟨entries, rfl, fun id release => ?_⟩
      rw [mem_of_getHolding_eq_ok hfound]
      constructor
      · rintro ⟨-, ⟨head, hget⟩, hholds⟩
        obtain ⟨row, hrow, -, hparsed⟩ := get_eq_some_iff.mp hget
        exact ⟨mem_cobList_of_parse hcoherent hrepo hrow hparsed, hholds⟩
      · rintro ⟨hrelease, hholds⟩
        have hid : id ∈ (refreshRepo texts cobs repo store).releasesForCid repo.id cid := by
          obtain ⟨artifact, hartifact⟩ := Option.isSome_iff_exists.mp hholds
          have hwellFormed := wellFormed_of_mem_cobList hrelease cid artifact hartifact
          obtain ⟨row, hrow⟩ : ∃ row, row ∈ artifactRows texts repo.id id cid artifact :=
            exists_mem_artifactRows hwellFormed
          obtain ⟨-, -, rfl⟩ := owner_of_mem_artifactRows hrow
          obtain ⟨hmem, hrepoId, hid⟩ := (mem_locations_refreshRepo hcoherent hrelease).mpr
            (mem_locationRows_iff.mpr ⟨artifact, hartifact, hrow⟩)
          exact Store.mem_releasesForCid.mpr ⟨row, hmem, hrepoId, rfl, hid⟩
        obtain ⟨cached, hget⟩ := exists_get_of_getHolding_eq_ok hfound hid
        obtain ⟨row, hrow, honly⟩ := exists_row_of_mem_cobList hcoherent hrepo hrelease
        rw [get_of_mem_rows hrow] at hget
        obtain ⟨parsed, hparsed, -⟩ := map_eq_ok_iff.mp hget
        rw [honly parsed hparsed] at hparsed
        exact ⟨hid, ⟨row.head, get_eq_some_iff.mpr ⟨row, hrow, rfl, hparsed⟩⟩, hholds⟩

end Reads

/-! ## Locations -/

/-- Every location row of the repository with a URL for the content identifier
belongs to an object with refs, or to one whose release row a refresh prunes. -/
def NoOrphan (repo : Repository) (cid : Cid) (store : Store) : Prop :=
  ∀ row ∈ store.locations, row.repo = repo.id → row.cid = cid → row.url ≠ "" →
    row.release ∈ repo.refs.keys ∨
      ∃ release, store.releases[row.release]? = some release ∧ release.repo = repo.id

theorem locationRow_inj {repoId : RepoId} {cid : Cid} {left right : ReleaseId}
    {leftDid rightDid : Did} {leftUrl rightUrl : Url} :
    locationRow texts repoId cid left leftDid leftUrl =
        locationRow texts repoId cid right rightDid rightUrl ↔
      left = right ∧ leftDid = rightDid ∧ leftUrl = rightUrl := by
  constructor
  · intro heq
    rw [locationRow, locationRow, LocationRow.mk.injEq] at heq
    exact ⟨heq.2.2.1, texts.did.print_injective heq.2.2.2.1,
      Url.serialization_injective heq.2.2.2.2⟩
  · rintro ⟨rfl, rfl, rfl⟩
    rfl

/-- The rows of a release that hold a URL are its discovery locations. -/
theorem mem_locationsIn_iff (texts : TextForms) (repoId : RepoId) {cid : Cid}
    {id found : ReleaseId} {release : Release} {did : Did} {url : Url} :
    (found, did, url) ∈ locationsIn cid id release ↔
      found = id ∧
        locationRow texts repoId cid id did url ∈ locationRows texts repoId id release := by
  rw [mem_locationRows_iff, locationsIn]
  show _ ↔ found = id ∧ ∃ artifact, release.artifact cid = some artifact ∧
    locationRow texts repoId cid id did url ∈ artifactRows texts repoId id cid artifact
  cases release.artifact cid with
  | none => simp
  | some artifact =>
      simp only [Option.some.injEq, exists_eq_left', artifactRows]
      split
      · rename_i hempty
        have hsentinel : locationRow texts repoId cid id did url ≠ ⟨repoId, cid, id, "", ""⟩ :=
          fun heq => url.serialization_ne_empty (congrArg LocationRow.url heq)
        rw [Std.ExtTreeMap.isEmpty_iff.mp hempty, List.mem_singleton]
        simp [hsentinel]
      · simp only [List.mem_flatMap, List.mem_map, Prod.mk.injEq, locationRow_inj, true_and]
        constructor
        · rintro ⟨entry, hentry, location, hlocation, rfl, rfl, rfl⟩
          exact ⟨rfl, entry, hentry, location, hlocation, rfl, rfl⟩
        · rintro ⟨rfl, entry, hentry, location, hlocation, rfl, rfl⟩
          exact ⟨entry, hentry, location, hlocation, rfl, rfl, rfl⟩

/-- In a coherent cache a row with a URL is the row of some location. -/
theorem Coherent.exists_eq_locationRow (hcoherent : Coherent texts cobs store)
    {row : LocationRow} (hrow : row ∈ store.locations) (hurl : row.url ≠ "") :
    ∃ did url, row = locationRow texts row.repo row.cid row.release did url := by
  obtain ⟨did, url, hdid, hurl⟩ := hcoherent.locations row hrow hurl
  refine ⟨did, url, ?_⟩
  rw [locationRow, ← hdid, ← hurl]

/-- Every row with a URL is parsed back. -/
theorem exists_locationsFor_eq_ok (hcoherent : Coherent texts cobs store) (repoId : RepoId)
    (cid : Cid) :
    ∃ found, store.locationsFor texts repoId cid = .ok found ∧
      ∀ id did url, (id, did, url) ∈ found ↔
        locationRow texts repoId cid id did url ∈ store.locations := by
  have hparse : ∀ id did url, Store.parseLocationRow texts
      (locationRow texts repoId cid id did url) = .ok (id, did, url) := by
    intro id did url
    have hurl : texts.url.parse url.serialization = some url := by
      rw [← texts.print_url, texts.url.parse_print]
    simp [Store.parseLocationRow, locationRow, texts.did.parse_print, hurl]
  have hrows : ∀ row, row ∈ (store.locations.filter fun row =>
      row.repo = repoId && row.cid = cid && row.url ≠ "") ↔
        row ∈ store.locations ∧ ∃ id did url, row = locationRow texts repoId cid id did url := by
    intro row
    simp only [List.mem_filter, Bool.and_eq_true, decide_eq_true_eq]
    constructor
    · rintro ⟨hrow, ⟨howner, rfl⟩, hurl⟩
      obtain ⟨did, url, heq⟩ := hcoherent.exists_eq_locationRow hrow (by simpa using hurl)
      exact ⟨hrow, row.release, did, url, howner ▸ heq⟩
    · rintro ⟨hrow, id, did, url, rfl⟩
      exact ⟨hrow, ⟨rfl, rfl⟩, by simpa [locationRow] using url.serialization_ne_empty⟩
  obtain ⟨found, hfound⟩ : ∃ found, store.locationsFor texts repoId cid = .ok found := by
    refine mapM_eq_ok_of_forall fun row hrow => ?_
    obtain ⟨-, id, did, url, rfl⟩ := (hrows row).mp hrow
    exact ⟨_, hparse id did url⟩
  refine ⟨found, hfound, fun id did url => ?_⟩
  rw [mem_of_mapM_eq_ok hfound]
  constructor
  · rintro ⟨row, hrow, hresult⟩
    obtain ⟨hmem, id', did', url', rfl⟩ := (hrows row).mp hrow
    rw [hparse, Except.ok.injEq, Prod.mk.injEq, Prod.mk.injEq] at hresult
    obtain ⟨rfl, rfl, rfl⟩ := hresult
    exact hmem
  · intro hmem
    exact ⟨_, (hrows _).mpr ⟨hmem, id, did, url, rfl⟩, hparse id did url⟩

/-- A refresh removes the location rows of an object without refs when the
repository has its release row, and only then. -/
theorem mem_locations_refreshRepo_of_no_refs {row : LocationRow}
    (hnone : repo.refs.get? row.release = none) (howner : row.repo = repo.id) :
    row ∈ (refreshRepo texts cobs repo store).locations ↔
      row ∈ store.locations ∧ ¬ ∃ release,
        store.releases[row.release]? = some release ∧ release.repo = repo.id := by
  have hview := Set.ext_iff.mp (congrArg Prod.snd
    (view_refreshRepo_of_no_refs texts cobs repo store hnone)) row
  rw [← Store.mem_heads_iff]
  split at hview
  · rename_i hheads
    simp [Store.view, Store.locationsOf, howner] at hview
    simp [hview, hheads]
  · rename_i hheads
    simpa [Store.view, Store.locationsOf, howner, hheads] using hview

/-- `locations_for` returns the locations git returns exactly when the cache
holds no orphaned row for the content identifier. -/
theorem locationsFor_mem_iff (hcoherent : Coherent texts cobs store)
    (hrepo : repo.Materializes cobs) (cid : Cid) :
    ∃ found expected, (locationsFor texts cobs repo cid store).1 = .ok found ∧
      Releases.locationsFor cid (repo.storeAll cobs) = .ok expected ∧
        ((∀ location, location ∈ found ↔ location ∈ expected) ↔ NoOrphan repo cid store) := by
  obtain ⟨found, hfound, hmem⟩ :=
    exists_locationsFor_eq_ok (hcoherent.refreshRepo : Coherent texts cobs
      (refreshRepo texts cobs repo store)) repo.id cid
  refine ⟨found, _, ?_, locationsFor_map_ok cid _, ?_⟩
  · rw [locationsFor, cachedLocationsFor, hfound]
    rfl
  have hexpected : ∀ id did url, (id, did, url) ∈ ((repo.cobList cobs).flatMap fun entry =>
      locationsIn cid entry.1 entry.2) ↔ ∃ release, (id, release) ∈ repo.cobList cobs ∧
        locationRow texts repo.id cid id did url ∈ locationRows texts repo.id id release := by
    intro id did url
    simp only [List.mem_flatMap, mem_locationsIn_iff texts repo.id]
    constructor
    · rintro ⟨⟨listed, release⟩, hrelease, rfl, hrow⟩
      exact ⟨release, hrelease, hrow⟩
    · rintro ⟨release, hrelease, hrow⟩
      exact ⟨(id, release), hrelease, rfl, hrow⟩
  constructor
  · intro hsame row hrow howner hcid hurl
    by_contra horphan
    rw [not_or] at horphan
    obtain ⟨did, url, heq⟩ := hcoherent.exists_eq_locationRow hrow hurl
    have hnone := IndexMap.get?_eq_none_iff.mpr horphan.1
    have hstale : row ∈ (refreshRepo texts cobs repo store).locations :=
      (mem_locations_refreshRepo_of_no_refs hnone howner).mpr ⟨hrow, horphan.2⟩
    rw [heq, howner, hcid, ← hmem, hsame, hexpected] at hstale
    obtain ⟨release, hrelease, -⟩ := hstale
    obtain ⟨tips, htips, -⟩ := Repository.mem_cobList.mp hrelease
    rw [hnone] at htips
    cases htips
  · rintro horphan ⟨id, did, url⟩
    rw [hmem, hexpected]
    constructor
    · intro hrow
      cases htips : repo.refs.get? id with
      | some tips =>
          obtain ⟨release, hmaterialize⟩ := hrepo id tips htips
          have hrelease := Repository.mem_cobList.mpr ⟨tips, htips, hmaterialize⟩
          exact ⟨release, hrelease, (mem_locations_refreshRepo hcoherent hrelease).mp
            ⟨hrow, rfl, rfl⟩⟩
      | none =>
          obtain ⟨hold, hunowned⟩ :=
            (mem_locations_refreshRepo_of_no_refs htips rfl).mp hrow
          rcases horphan _ hold rfl rfl url.serialization_ne_empty with hrefs | howned
          · exact absurd hrefs (IndexMap.get?_eq_none_iff.mp htips)
          · exact absurd howned hunowned
    · rintro ⟨release, hrelease, hrow⟩
      exact ((mem_locations_refreshRepo hcoherent hrelease).mpr hrow).1

end RadicleArtifact.Cache
