import RadicleArtifact.Cache.Reads
import RadicleArtifact.Library.Sweep

/-!
# What the cache holds

The cache is coherent when every release row, with the location rows of the same
repository and id, is what an update would write for the tips its token names.
Reads keep it coherent.  A refresh makes it current: for the repository it runs
in, the release rows are those of the objects with refs.  Location rows can
outlive their release row, when another repository takes the row over, and then
no refresh finds them.
-/

namespace RadicleArtifact.Cache

open RadicleArtifact.Core
open RadicleArtifact.Library
open RadicleArtifact.Cob
open RadicleArtifact.Releases

/-- What the cache holds about one object of one repository. -/
def Store.view (store : Store) (repo : RepoId) (id : ReleaseId) :
    Option ReleaseRow × Set LocationRow :=
  (store.releases[id]?, store.locationsOf repo id)

variable (texts : TextForms) (cobs : CobStore)

/-- What an update writes. -/
def freshView (repo : RepoId) (id : ReleaseId) (tips : Tips) (release : Release) :
    Option ReleaseRow × Set LocationRow :=
  (some ⟨repo, headToken tips.oids, (releaseForm texts).write release⟩,
    {row | row ∈ locationRows texts repo id release})

/-- Every release row, with the location rows of its repository and id, is what an
update would write; and a row with a URL has a contributor. -/
structure Coherent (store : Store) : Prop where
  releases : ∀ id row, store.releases[id]? = some row → ∃ (tips : Tips) (release : Release),
    cobs.materialize row.repo id tips.oids.toFinset = .ok (some release) ∧
      store.view row.repo id = freshView texts row.repo id tips release
  locations : ∀ row ∈ store.locations, row.url ≠ "" → ∃ did url,
    row.did = texts.did.print did ∧ row.url = Url.serialization url

variable {texts cobs}

/-! ## One write -/

@[simp]
theorem view_update (store : Store) (repo : RepoId) (id : ReleaseId) (tips : Tips)
    (release : Release) :
    (store.update texts repo id (headToken tips.oids) release).view repo id =
      freshView texts repo id tips release := by
  rw [Store.view, Store.releases_update, if_pos rfl, Store.locationsOf_update]
  rfl

theorem view_update_of_ne (store : Store) {id wanted : ReleaseId} (hne : wanted ≠ id)
    (repo wantedRepo : RepoId) (head : String) (release : Release) :
    (store.update texts repo id head release).view wantedRepo wanted =
      store.view wantedRepo wanted := by
  rw [Store.view, Store.releases_update, if_neg hne,
    Store.locationsOf_update_of_ne store (fun hboth => hne hboth.2)]
  rfl

@[simp]
theorem view_remove (store : Store) (repo : RepoId) (id : ReleaseId) :
    (store.remove repo id).view repo id = (none, ∅) := by
  rw [Store.view, Store.releases_remove, if_pos rfl, Store.locationsOf_remove]

theorem view_remove_of_ne (store : Store) {id wanted : ReleaseId} (hne : wanted ≠ id)
    (repo wantedRepo : RepoId) :
    (store.remove repo id).view wantedRepo wanted = store.view wantedRepo wanted := by
  rw [Store.view, Store.releases_remove, if_neg hne,
    Store.locationsOf_remove_of_ne store (fun hboth => hne hboth.2)]
  rfl

theorem coherent_empty : Coherent texts cobs ∅ where
  releases id row hrow := by
    have hnone : (∅ : Store).releases[id]? = none := Std.ExtTreeMap.getElem?_empty
    simp [hnone] at hrow
  locations row hrow := by
    have hempty : row ∈ ([] : List LocationRow) := hrow
    simp at hempty

/-- A row written for an artifact has a URL only with a contributor. -/
theorem texts_of_mem_locationRows {repo : RepoId} {id : ReleaseId} {release : Release}
    {row : LocationRow} (hrow : row ∈ locationRows texts repo id release)
    (hurl : row.url ≠ "") :
    ∃ did url, row.did = texts.did.print did ∧ row.url = Url.serialization url := by
  obtain ⟨artifact, -, hmem⟩ := mem_locationRows_iff.mp hrow
  rw [artifactRows] at hmem
  split at hmem
  · rw [List.mem_singleton.mp hmem] at hurl
    exact absurd rfl hurl
  · obtain ⟨entry, -, hentry⟩ := List.mem_flatMap.mp hmem
    obtain ⟨url, -, heq⟩ := List.mem_map.mp hentry
    exact ⟨entry.1, url, congrArg LocationRow.did heq.symm, congrArg LocationRow.url heq.symm⟩

theorem Coherent.update {store : Store} (hcoherent : Coherent texts cobs store)
    {repo : RepoId} {id : ReleaseId} {tips : Tips} {release : Release}
    (hmaterialize : cobs.materialize repo id tips.oids.toFinset = .ok (some release)) :
    Coherent texts cobs (store.update texts repo id (headToken tips.oids) release) where
  releases wanted row hrow := by
    rw [Store.releases_update] at hrow
    by_cases hwanted : wanted = id
    · subst hwanted
      rw [if_pos rfl] at hrow
      obtain rfl := Option.some.inj hrow
      exact ⟨tips, release, hmaterialize, view_update store repo wanted tips release⟩
    · rw [if_neg hwanted] at hrow
      rw [view_update_of_ne store hwanted]
      exact hcoherent.releases wanted row hrow
  locations row hrow hurl := by
    rcases Store.mem_locations_update.mp hrow with ⟨hold, -⟩ | hnew
    · exact hcoherent.locations row hold hurl
    · exact texts_of_mem_locationRows hnew hurl

theorem Coherent.remove {store : Store} (hcoherent : Coherent texts cobs store)
    (repo : RepoId) (id : ReleaseId) : Coherent texts cobs (store.remove repo id) where
  releases wanted row hrow := by
    rw [Store.releases_remove] at hrow
    by_cases hwanted : wanted = id
    · simp [hwanted] at hrow
    · rw [if_neg hwanted] at hrow
      rw [view_remove_of_ne store hwanted]
      exact hcoherent.releases wanted row hrow
  locations row hrow := by
    rw [Store.remove, mem_deleteLocations] at hrow
    exact hcoherent.locations row hrow.1

/-! ## One refresh -/

variable {repo : Repository}

theorem Coherent.refreshObject {store : Store} (hcoherent : Coherent texts cobs store)
    (cached : BTreeMap ReleaseId String) (entry : ObjectId × Tips) :
    Coherent texts cobs (refreshObject texts cobs repo cached store entry) := by
  rw [Cache.refreshObject]
  split
  · exact hcoherent
  · split
    · rename_i release hmaterialize
      exact hcoherent.update hmaterialize
    · exact hcoherent.remove repo.id entry.1
    · exact hcoherent

theorem Coherent.pruneObject {store : Store} (hcoherent : Coherent texts cobs store)
    (id : ReleaseId) : Coherent texts cobs (pruneObject repo store id) := by
  rw [Cache.pruneObject]
  split
  · exact hcoherent
  · exact hcoherent.remove repo.id id

theorem Coherent.refreshRepo {store : Store} (hcoherent : Coherent texts cobs store) :
    Coherent texts cobs (refreshRepo texts cobs repo store) :=
  foldl_preserves (fun _ id hstore => hstore.pruneObject id) _
    (foldl_preserves (fun _ entry hstore => hstore.refreshObject _ entry) _ hcoherent)

section Sweeps

variable (texts cobs repo)

/-- What visiting an object makes of its view. -/
def refreshView (cached : BTreeMap ReleaseId String) (entry : ObjectId × Tips)
    (view : Option ReleaseRow × Set LocationRow) : Option ReleaseRow × Set LocationRow :=
  if cached[entry.1]? = some (headToken entry.2.oids) then view
  else
    match repo.materialize cobs entry.1 entry.2 with
    | .ok (some release) => freshView texts repo.id entry.1 entry.2 release
    | .ok none => (none, ∅)
    | .error _ => view

theorem view_refreshObject (cached : BTreeMap ReleaseId String) (store : Store)
    (entry : ObjectId × Tips) :
    (refreshObject texts cobs repo cached store entry).view repo.id entry.1 =
      refreshView texts cobs repo cached entry (store.view repo.id entry.1) := by
  rw [refreshObject, refreshView]
  split
  · rfl
  · cases repo.materialize cobs entry.1 entry.2 with
    | error err => rfl
    | ok found =>
        cases found with
        | none => exact view_remove store repo.id entry.1
        | some release => exact view_update store repo.id entry.1 entry.2 release

theorem view_refreshObject_of_ne (cached : BTreeMap ReleaseId String) (store : Store)
    (entry : ObjectId × Tips) (wanted : ReleaseId) (hne : wanted ≠ entry.1) :
    (refreshObject texts cobs repo cached store entry).view repo.id wanted =
      store.view repo.id wanted := by
  rw [refreshObject]
  split
  · rfl
  · split
    · exact view_update_of_ne store hne repo.id repo.id _ _
    · exact view_remove_of_ne store hne repo.id repo.id
    · rfl

theorem view_pruneObject (store : Store) (id : ReleaseId) :
    (pruneObject repo store id).view repo.id id =
      if id ∈ repo.refs.keys then store.view repo.id id else (none, ∅) := by
  rw [pruneObject]
  split
  · rfl
  · exact view_remove store repo.id id

theorem view_pruneObject_of_ne (store : Store) (id wanted : ReleaseId) (hne : wanted ≠ id) :
    (pruneObject repo store id).view repo.id wanted = store.view repo.id wanted := by
  rw [pruneObject]
  split
  · rfl
  · exact view_remove_of_ne store hne repo.id repo.id

/-- The first sweep visits the objects with refs. -/
theorem view_foldl_refreshObject (cached : BTreeMap ReleaseId String) (store : Store)
    (id : ObjectId) :
    (repo.refs.entries.foldl (refreshObject texts cobs repo cached) store).view repo.id id =
      match repo.refs.get? id with
      | some tips => refreshView texts cobs repo cached (id, tips) (store.view repo.id id)
      | none => store.view repo.id id := by
  have hframe := view_refreshObject_of_ne texts cobs repo cached
  cases htips : repo.refs.get? id with
  | some tips =>
      exact part_foldl_of_mem Prod.fst (fun store id => store.view repo.id id) hframe
        (refreshView texts cobs repo cached) (view_refreshObject texts cobs repo cached)
        repo.refs.nodup_keys store (IndexMap.get?_eq_some_iff_mem.mp htips)
  | none =>
      exact part_foldl_of_not_mem Prod.fst (fun store id => store.view repo.id id) hframe
        store (IndexMap.get?_eq_none_iff.mp htips)

/-- The second sweep visits the rows the repository had before. -/
theorem view_foldl_pruneObject (cached : BTreeMap ReleaseId String) (store : Store)
    (id : ObjectId) :
    (cached.keys.foldl (pruneObject repo) store).view repo.id id =
      if id ∈ cached ∧ id ∉ repo.refs.keys then (none, ∅) else store.view repo.id id := by
  have hframe := view_pruneObject_of_ne repo
  by_cases hcached : id ∈ cached
  · have hnodup : (cached.keys.map fun id => id).Nodup := by
      rw [List.map_id']
      simpa [List.Nodup] using Std.ExtTreeMap.distinct_keys (t := cached)
    rw [part_foldl_of_mem (fun id => id) (fun store id => store.view repo.id id) hframe
      (fun id view => if id ∈ repo.refs.keys then view else (none, ∅))
      (view_pruneObject repo) hnodup store (Std.ExtTreeMap.mem_keys.mpr hcached)]
    by_cases hrefs : id ∈ repo.refs.keys <;> simp [hcached, hrefs]
  · rw [part_foldl_of_not_mem (fun id => id) (fun store id => store.view repo.id id) hframe
      store (by simpa using hcached), if_neg fun hboth => hcached hboth.1]

/-- What a refresh does to an object with refs. -/
theorem view_refreshRepo_of_refs (store : Store) {id : ObjectId} {tips : Tips}
    (htips : repo.refs.get? id = some tips) :
    (refreshRepo texts cobs repo store).view repo.id id =
      refreshView texts cobs repo (store.heads repo.id) (id, tips) (store.view repo.id id) := by
  have hkeys : id ∈ repo.refs.keys := IndexMap.mem_keys_iff.mpr ⟨tips, htips⟩
  rw [refreshRepo, view_foldl_pruneObject, if_neg fun hboth => hboth.2 hkeys,
    view_foldl_refreshObject, htips]

/-- What a refresh does to an object without refs: it is pruned when its release
row is one of the repository's. -/
theorem view_refreshRepo_of_no_refs (store : Store) {id : ObjectId}
    (hnone : repo.refs.get? id = none) :
    (refreshRepo texts cobs repo store).view repo.id id =
      if id ∈ store.heads repo.id then (none, ∅) else store.view repo.id id := by
  have hkeys : id ∉ repo.refs.keys := IndexMap.get?_eq_none_iff.mp hnone
  rw [refreshRepo, view_foldl_pruneObject, view_foldl_refreshObject, hnone]
  simp only [hkeys, not_false_eq_true, and_true]

end Sweeps

/-! ## A current cache -/

/-- A row whose token matches the tips is what an update would write for them. -/
theorem Coherent.view_eq_of_head {store : Store} (hcoherent : Coherent texts cobs store)
    {id : ObjectId} {row : ReleaseRow} {tips : Tips} {release : Release}
    (hrow : store.releases[id]? = some row) (howner : row.repo = repo.id)
    (hhead : row.head = headToken tips.oids)
    (hmaterialize : repo.materialize cobs id tips = .ok (some release)) :
    store.view repo.id id = freshView texts repo.id id tips release := by
  obtain ⟨cachedTips, cached, hcached, hview⟩ := hcoherent.releases id row hrow
  rw [howner] at hcached hview
  have hrows : some row = (freshView texts repo.id id cachedTips cached).1 := by
    rw [← hview, Store.view, hrow]
  have hheads : headToken cachedTips.oids = headToken tips.oids :=
    (congrArg ReleaseRow.head (Option.some.inj hrows)).symm.trans hhead
  have hperm := perm_of_headToken_eq cachedTips.nonempty tips.nonempty hheads
  -- Equal tokens mean equal tips, so the cached release is the current one.
  rw [List.toFinset_eq_of_perm _ _ hperm] at hcached
  rw [Repository.materialize, hcached] at hmaterialize
  obtain rfl := Option.some.inj (Except.ok.inj hmaterialize)
  rw [hview, freshView, freshView, hheads]

/-- After a refresh, an object with refs has what an update would write. -/
theorem view_refreshRepo_of_materialize {store : Store}
    (hcoherent : Coherent texts cobs store) {id : ObjectId} {tips : Tips} {release : Release}
    (htips : repo.refs.get? id = some tips)
    (hmaterialize : repo.materialize cobs id tips = .ok (some release)) :
    (refreshRepo texts cobs repo store).view repo.id id =
      freshView texts repo.id id tips release := by
  rw [view_refreshRepo_of_refs texts cobs repo store htips, refreshView]
  split
  · rename_i htoken
    obtain ⟨row, hrow, howner, hhead⟩ := Store.getElem?_heads_eq_some_iff.mp htoken
    exact hcoherent.view_eq_of_head hrow howner hhead hmaterialize
  · rw [hmaterialize]

/-- Where every object materializes, the rows after a refresh are those of the
listed releases. -/
theorem mem_rows_refreshRepo {store : Store} (hcoherent : Coherent texts cobs store)
    (hrepo : repo.Materializes cobs) {id : ReleaseId} {row : ReleaseRow} :
    (id, row) ∈ (refreshRepo texts cobs repo store).rows repo.id ↔
      ∃ tips release, repo.refs.get? id = some tips ∧
        repo.materialize cobs id tips = .ok (some release) ∧
          row = ⟨repo.id, headToken tips.oids, (releaseForm texts).write release⟩ := by
  rw [Store.mem_rows]
  constructor
  · rintro ⟨hrow, howner⟩
    cases htips : repo.refs.get? id with
    | some tips =>
        obtain ⟨release, hmaterialize⟩ := hrepo id tips htips
        have hview := view_refreshRepo_of_materialize hcoherent htips hmaterialize
        refine ⟨tips, release, rfl, hmaterialize, ?_⟩
        rw [Store.view, hrow] at hview
        exact Option.some.inj (congrArg Prod.fst hview)
    | none =>
        have hview := view_refreshRepo_of_no_refs texts cobs repo store htips
        rw [Store.view, hrow] at hview
        split at hview
        · cases congrArg Prod.fst hview
        · rename_i hpruned
          have hold : store.releases[id]? = some row := (congrArg Prod.fst hview).symm
          exact absurd (Store.mem_heads_iff.mpr ⟨row, hold, howner⟩) hpruned
  · rintro ⟨tips, release, htips, hmaterialize, rfl⟩
    have hview := view_refreshRepo_of_materialize hcoherent htips hmaterialize
    exact ⟨congrArg Prod.fst hview, rfl⟩

end RadicleArtifact.Cache
