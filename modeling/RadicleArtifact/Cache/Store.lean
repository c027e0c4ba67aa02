import RadicleArtifact.Cob.Codec
import RadicleArtifact.Library.Sorting

/-!
# The cache database

One database serves every repository of a node.  A table of releases, keyed by
release id alone, holds each materialized release as JSON text with a token of
the refs it was built from; a table of locations, keyed by all of its columns,
answers lookups by content identifier.  Identifier columns are typed here by what
they identify; the contributor and URL of a location are texts, because a row for
an artifact without locations leaves them empty.
-/

namespace RadicleArtifact.Cache

open RadicleArtifact.Core
open RadicleArtifact.Library
open RadicleArtifact.Cob

inductive Error where
  /-- A cached blob failed to deserialize. -/
  | json
  /-- A cached value could not be parsed back into its type. -/
  | parse
  deriving DecidableEq

structure ReleaseRow where
  repo : RepoId
  head : String
  release : Json

structure LocationRow where
  repo : RepoId
  cid : Cid
  release : ReleaseId
  did : String
  url : String
  deriving DecidableEq

structure Store where
  releases : BTreeMap ReleaseId ReleaseRow
  locations : List LocationRow

instance : EmptyCollection Store :=
  ⟨⟨∅, []⟩⟩

/-- Version of the cached format. -/
def format : ℕ := 2

/-- A freshness token: the format and the sorted tips of an object. -/
def headToken (tips : List Oid) : String :=
  "v" ++ toString format ++ ":" ++
    String.intercalate "," ((tips.map Oid.toHex).insertionSort (· ≤ ·))

/-- The nearest double, ties to even: from `2 ^ 63` to `2 ^ 64` doubles are `2 ^ 11` apart. -/
def nearestDouble (value : ℕ) : ℕ :=
  let below := value / 2048
  let rest := value % 2048
  if rest < 1024 ∨ rest = 1024 ∧ below % 2 = 0 then below * 2048 else (below + 1) * 2048

/-- What `json_extract` reads from the digits of a `u64`: an integer of the database has 63
bits and a sign, and a larger number becomes a double. -/
def jsonExtract (value : ℕ) : ℕ :=
  if value < 2 ^ 63 then value else nearestDouble value

/-- The creation time as the database reads it from the stored text. -/
def ReleaseRow.timestamp (row : ReleaseRow) : WithBot ℕ :=
  match row.release with
  | .object members =>
      (members.lookup "timestamp").bind fun json =>
        json.asU64.map fun value => jsonExtract value.toNat
  | _ => ⊥

/-- `DELETE FROM locations WHERE repo = ?1 AND release = ?2` -/
def deleteLocations (rows : List LocationRow) (repo : RepoId) (id : ReleaseId) :
    List LocationRow :=
  rows.filter fun row => !(row.repo = repo && row.release = id)

/-- `INSERT OR IGNORE INTO locations` -/
def insertLocation (rows : List LocationRow) (row : LocationRow) : List LocationRow :=
  if row ∈ rows then rows else rows ++ [row]

section Text

variable (texts : TextForms)

/-- The row of one location. -/
def locationRow (repo : RepoId) (cid : Cid) (id : ReleaseId) (did : Did) (url : Url) :
    LocationRow where
  repo := repo
  cid := cid
  release := id
  did := texts.did.print did
  url := url.serialization

/-- The location rows of one artifact.  An artifact without locations gets one
row with an empty URL. -/
def artifactRows (repo : RepoId) (id : ReleaseId) (cid : Cid) (artifact : Artifact) :
    List LocationRow :=
  if artifact.locations.isEmpty then [⟨repo, cid, id, "", ""⟩]
  else
    artifact.locations.toList.flatMap fun entry =>
      entry.2.toList.map fun url => locationRow texts repo cid id entry.1 url

def locationRows (repo : RepoId) (id : ReleaseId) (release : Release) : List LocationRow :=
  release.artifacts.entries.flatMap fun entry => artifactRows texts repo id entry.1 entry.2

namespace Store

/-- Insert or replace a cached release, rebuilding its location rows. -/
def update (store : Store) (repo : RepoId) (id : ReleaseId) (head : String)
    (release : Release) : Store where
  releases := store.releases.insert id ⟨repo, head, (releaseForm texts).write release⟩
  locations := (locationRows texts repo id release).foldl insertLocation
    (deleteLocations store.locations repo id)

/-- Remove a cached release and its location rows.  The release row goes
whichever repository it is of. -/
def remove (store : Store) (repo : RepoId) (id : ReleaseId) : Store where
  releases := store.releases.erase id
  locations := deleteLocations store.locations repo id

/-- Parse the release of a row. -/
def parseReleaseRow (row : ReleaseRow) : Except Error Release :=
  match Json.fromText (releaseForm texts).read row.release with
  | some release => .ok release
  | none => .error .json

/-- The head and release of a cached release of the repository. -/
def get (store : Store) (repo : RepoId) (id : ReleaseId) :
    Except Error (Option (String × Release)) :=
  match store.releases[id]? with
  | none => .ok none
  | some row =>
      if row.repo = repo then
        (parseReleaseRow texts row).map fun release => some (row.head, release)
      else .ok none

/-- `SELECT ... FROM releases WHERE repo = ?1` -/
def rows (store : Store) (repo : RepoId) : List (ReleaseId × ReleaseRow) :=
  store.releases.toList.filter fun entry => entry.2.repo = repo

/-- Parse one selected row. -/
def parseEntry (entry : ReleaseId × ReleaseRow) : Except Error (ReleaseId × Release) :=
  (parseReleaseRow texts entry.2).map fun release => (entry.1, release)

/-- Every cached release of the repository; the first bad row ends the query. -/
def list (store : Store) (repo : RepoId) : Except Error (List (ReleaseId × Release)) :=
  (store.rows repo).mapM (parseEntry texts)

/-- `ORDER BY timestamp DESC, id DESC`: ids compare as texts. -/
def orderKey (entry : ReleaseId × ReleaseRow) : WithBot ℕ ×ₗ String :=
  toLex (entry.2.timestamp, entry.1.toHex)

/-- Cached releases, newest first.  Rows are parsed one at a time. -/
def listByTimestamp (store : Store) (repo : RepoId) :
    List (Except Error (ReleaseId × Release)) :=
  (sortByKeyDesc orderKey (store.rows repo)).map (parseEntry texts)

/-- The freshness tokens of the repository's rows. -/
def heads (store : Store) (repo : RepoId) : BTreeMap ReleaseId String :=
  BTreeMap.collect <| (store.rows repo).map fun entry => (entry.1, entry.2.head)

/-- `SELECT DISTINCT release FROM locations WHERE repo = ?1 AND cid = ?2` -/
def releasesForCid (store : Store) (repo : RepoId) (cid : Cid) : List ReleaseId :=
  ((store.locations.filter fun row => row.repo = repo && row.cid = cid).map
    LocationRow.release).dedup

/-- Parse a location row back. -/
def parseLocationRow (row : LocationRow) : Except Error (ReleaseId × Did × Url) :=
  match texts.did.parse row.did, texts.url.parse row.url with
  | some did, some url => .ok (row.release, did, url)
  | _, _ => .error .parse

/-- All locations for a content identifier; sentinel rows are left out. -/
def locationsFor (store : Store) (repo : RepoId) (cid : Cid) :
    Except Error (List (ReleaseId × Did × Url)) :=
  (store.locations.filter fun row => row.repo = repo && row.cid = cid && row.url ≠ "").mapM
    (parseLocationRow texts)

end Store

end Text

/-! ## Creation times -/

theorem nearestDouble_mono : Monotone nearestDouble := by
  intro left right hle
  simp only [nearestDouble]
  have hbelow : left / 2048 ≤ right / 2048 := Nat.div_le_div_right hle
  split <;> split <;> omega

theorem le_nearestDouble {value : ℕ} (hlarge : 2 ^ 63 ≤ value) : 2 ^ 63 ≤ nearestDouble value := by
  simp only [nearestDouble]
  split <;> omega

/-- The database keeps the order of creation times, but may not tell two of them apart. -/
theorem jsonExtract_mono : Monotone jsonExtract := by
  intro left right hle
  rw [jsonExtract, jsonExtract]
  split
  · split
    · exact hle
    · rename_i hleft hright
      exact hleft.le.trans (le_nearestDouble (not_lt.mp hright))
  · rename_i hleft
    rw [if_neg fun hright => hleft (hle.trans_lt hright)]
    exact nearestDouble_mono hle

/-! ## Freshness tokens -/

/-- Equal tokens come from the same tips. -/
theorem perm_of_headToken_eq {left right : List Oid} (hleft : left ≠ [])
    (hright : right ≠ []) (htoken : headToken left = headToken right) : left.Perm right := by
  let sorted (tips : List Oid) : List String := (tips.map Oid.toHex).insertionSort (· ≤ ·)
  have hperm : ∀ tips, (sorted tips).Perm (tips.map Oid.toHex) :=
    fun tips => List.perm_insertionSort _ _
  have hjoined : String.intercalate "," (sorted left) = String.intercalate "," (sorted right) := by
    simpa [headToken, String.append_right_inj] using htoken
  have hsplit : ∀ tips : List Oid, tips ≠ [] →
      (String.intercalate "," (sorted tips)).toList.splitOn ',' =
        (sorted tips).map String.toList := by
    intro tips htips
    rw [String.toList_intercalate]
    refine List.splitOn_intercalate ',' (fun text htext => ?_) ?_
    · obtain ⟨hex, hhex, rfl⟩ := List.mem_map.mp htext
      obtain ⟨oid, -, rfl⟩ := List.mem_map.mp ((hperm tips).mem_iff.mp hhex)
      exact oid.comma_notMem_toHex
    · intro hempty
      have hlength := (hperm tips).length_eq
      rw [List.map_eq_nil_iff.mp hempty, List.length_map] at hlength
      exact htips (List.length_eq_zero_iff.mp hlength.symm)
  have hsorted : sorted left = sorted right := by
    refine List.map_injective_iff.mpr (fun _ _ => String.toList_injective) ?_
    rw [← hsplit left hleft, ← hsplit right hright, hjoined]
  have hhex : (left.map Oid.toHex).Perm (right.map Oid.toHex) :=
    ((hperm left).symm.trans (hsorted ▸ .refl _)).trans (hperm right)
  exact (List.map_perm_map_iff Oid.toHex_injective).mp hhex

/-! ## The location index -/

theorem mem_foldl_insertLocation {new rows : List LocationRow} {row : LocationRow} :
    row ∈ new.foldl insertLocation rows ↔ row ∈ rows ∨ row ∈ new := by
  induction new generalizing rows with
  | nil => simp
  | cons first new ih =>
      have hinsert : row ∈ insertLocation rows first ↔ row ∈ rows ∨ row = first := by
        rw [insertLocation]
        split
        · rename_i hpresent
          constructor
          · exact Or.inl
          · rintro (hrow | rfl)
            · exact hrow
            · exact hpresent
        · simp
      rw [List.foldl_cons, ih, hinsert, List.mem_cons, or_assoc]

@[simp]
theorem mem_deleteLocations {rows : List LocationRow} {repo : RepoId} {id : ReleaseId}
    {row : LocationRow} :
    row ∈ deleteLocations rows repo id ↔ row ∈ rows ∧ ¬ (row.repo = repo ∧ row.release = id) := by
  simp [deleteLocations, ← not_and_or]

section Text

variable {texts : TextForms}

theorem owner_of_mem_artifactRows {repo : RepoId} {id : ReleaseId} {cid : Cid}
    {artifact : Artifact} {row : LocationRow}
    (hrow : row ∈ artifactRows texts repo id cid artifact) :
    row.repo = repo ∧ row.release = id ∧ row.cid = cid := by
  rw [artifactRows] at hrow
  split at hrow
  · obtain rfl := List.mem_singleton.mp hrow
    exact ⟨rfl, rfl, rfl⟩
  · obtain ⟨entry, -, hurl⟩ := List.mem_flatMap.mp hrow
    obtain ⟨url, -, rfl⟩ := List.mem_map.mp hurl
    exact ⟨rfl, rfl, rfl⟩

theorem mem_locationRows_iff {repo : RepoId} {id : ReleaseId} {release : Release}
    {row : LocationRow} :
    row ∈ locationRows texts repo id release ↔
      ∃ artifact, release.artifact row.cid = some artifact ∧
        row ∈ artifactRows texts repo id row.cid artifact := by
  rw [locationRows, List.mem_flatMap]
  constructor
  · rintro ⟨⟨cid, artifact⟩, hentry, hrow⟩
    obtain ⟨-, -, rfl⟩ := owner_of_mem_artifactRows hrow
    exact ⟨artifact, IndexMap.get?_eq_some_iff_mem.mpr hentry, hrow⟩
  · rintro ⟨artifact, hartifact, hrow⟩
    exact ⟨(row.cid, artifact), IndexMap.get?_eq_some_iff_mem.mp hartifact, hrow⟩

theorem owner_of_mem_locationRows {repo : RepoId} {id : ReleaseId} {release : Release}
    {row : LocationRow} (hrow : row ∈ locationRows texts repo id release) :
    row.repo = repo ∧ row.release = id := by
  obtain ⟨artifact, -, hmem⟩ := mem_locationRows_iff.mp hrow
  obtain ⟨hrepo, hrelease, -⟩ := owner_of_mem_artifactRows hmem
  exact ⟨hrepo, hrelease⟩

namespace Store

/-- The location rows of one object of one repository. -/
def locationsOf (store : Store) (repo : RepoId) (id : ReleaseId) : Set LocationRow :=
  {row | row ∈ store.locations ∧ row.repo = repo ∧ row.release = id}

theorem releases_update (store : Store) (repo : RepoId) (id : ReleaseId) (head : String)
    (release : Release) (wanted : ReleaseId) :
    (store.update texts repo id head release).releases[wanted]? =
      if wanted = id then some ⟨repo, head, (releaseForm texts).write release⟩
      else store.releases[wanted]? :=
  BTreeMap.getElem?_insert_eq_ite store.releases id _ wanted

theorem releases_remove (store : Store) (repo : RepoId) (id wanted : ReleaseId) :
    (store.remove repo id).releases[wanted]? =
      if wanted = id then none else store.releases[wanted]? := by
  simp only [remove, Std.ExtTreeMap.getElem?_erase, compare_eq_iff_eq, eq_comm (a := id)]

theorem mem_locations_update {store : Store} {repo : RepoId} {id : ReleaseId}
    {head : String} {release : Release} {row : LocationRow} :
    row ∈ (store.update texts repo id head release).locations ↔
      row ∈ store.locations ∧ ¬ (row.repo = repo ∧ row.release = id) ∨
        row ∈ locationRows texts repo id release := by
  rw [update, mem_foldl_insertLocation, mem_deleteLocations]

theorem locationsOf_update (store : Store) (repo : RepoId) (id : ReleaseId) (head : String)
    (release : Release) :
    (store.update texts repo id head release).locationsOf repo id =
      {row | row ∈ locationRows texts repo id release} := by
  ext row
  simp only [locationsOf, Set.mem_ofPred_eq, mem_locations_update]
  constructor
  · rintro ⟨⟨-, hother⟩ | hrow, howner⟩
    · exact absurd howner hother
    · exact hrow
  · intro hrow
    exact ⟨.inr hrow, owner_of_mem_locationRows hrow⟩

theorem locationsOf_update_of_ne (store : Store) {repo wantedRepo : RepoId}
    {id wanted : ReleaseId} (hne : ¬ (wantedRepo = repo ∧ wanted = id)) (head : String)
    (release : Release) :
    (store.update texts repo id head release).locationsOf wantedRepo wanted =
      store.locationsOf wantedRepo wanted := by
  ext row
  simp only [locationsOf, Set.mem_ofPred_eq, mem_locations_update]
  constructor
  · rintro ⟨⟨hrow, -⟩ | hrow, rfl, rfl⟩
    · exact ⟨hrow, rfl, rfl⟩
    · exact absurd (owner_of_mem_locationRows hrow) hne
  · rintro ⟨hrow, rfl, rfl⟩
    exact ⟨.inl ⟨hrow, hne⟩, rfl, rfl⟩

theorem locationsOf_remove (store : Store) (repo : RepoId) (id : ReleaseId) :
    (store.remove repo id).locationsOf repo id = ∅ := by
  ext row
  simp [locationsOf, remove]

theorem locationsOf_remove_of_ne (store : Store) {repo wantedRepo : RepoId}
    {id wanted : ReleaseId} (hne : ¬ (wantedRepo = repo ∧ wanted = id)) :
    (store.remove repo id).locationsOf wantedRepo wanted =
      store.locationsOf wantedRepo wanted := by
  ext row
  simp only [locationsOf, remove, mem_deleteLocations, Set.mem_ofPred_eq]
  constructor
  · rintro ⟨⟨hrow, -⟩, howner⟩
    exact ⟨hrow, howner⟩
  · rintro ⟨hrow, rfl, rfl⟩
    exact ⟨⟨hrow, hne⟩, rfl, rfl⟩

theorem mem_rows {store : Store} {repo : RepoId} {id : ReleaseId} {row : ReleaseRow} :
    (id, row) ∈ store.rows repo ↔ store.releases[id]? = some row ∧ row.repo = repo := by
  rw [rows, List.mem_filter, BTreeMap.mem_toList, decide_eq_true_iff]

theorem nodup_keys_rows (store : Store) (repo : RepoId) :
    ((store.rows repo).map Prod.fst).Nodup :=
  (List.filter_sublist.map Prod.fst).nodup (BTreeMap.nodup_keys_toList store.releases)

theorem mem_releasesForCid {store : Store} {repo : RepoId} {cid : Cid} {id : ReleaseId} :
    id ∈ store.releasesForCid repo cid ↔
      ∃ row ∈ store.locations, row.repo = repo ∧ row.cid = cid ∧ row.release = id := by
  simp [releasesForCid, and_assoc]

theorem getElem?_heads_eq_some_iff {store : Store} {repo : RepoId} {id : ReleaseId}
    {head : String} :
    (store.heads repo)[id]? = some head ↔
      ∃ row, store.releases[id]? = some row ∧ row.repo = repo ∧ row.head = head := by
  have hnodup : (((store.rows repo).map fun entry => (entry.1, entry.2.head)).map
      Prod.fst).Nodup := by
    rw [List.map_map]
    exact store.nodup_keys_rows repo
  rw [heads, BTreeMap.getElem?_collect_eq_some_iff hnodup]
  simp [mem_rows, and_assoc]

theorem mem_heads_iff {store : Store} {repo : RepoId} {id : ReleaseId} :
    id ∈ store.heads repo ↔ ∃ row, store.releases[id]? = some row ∧ row.repo = repo := by
  rw [Std.ExtTreeMap.mem_iff_isSome_getElem?, Option.isSome_iff_exists]
  simp only [getElem?_heads_eq_some_iff]
  constructor
  · rintro ⟨head, row, hrow, howner, -⟩
    exact ⟨row, hrow, howner⟩
  · rintro ⟨row, hrow, howner⟩
    exact ⟨row.head, row, hrow, howner, rfl⟩

end Store

end Text

end RadicleArtifact.Cache
