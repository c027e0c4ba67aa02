import RadicleArtifact.Cob.Reducer

/-!
# Locations across releases

The releases of a repository hold locations: a user says in a release that the
content of an artifact can be had from a URL.  Adding and removing one changes that
location and no other, so a series of writes adds or removes exactly what it lists.
-/

namespace RadicleArtifact.Releases

open RadicleArtifact.Core
open RadicleArtifact.Library
open RadicleArtifact.Cob

/-- The releases of a repository, in the order they are listed. -/
abbrev Listing := IndexMap ReleaseId Release

namespace Listing

variable (releases : Listing)

/-- `get_mut(&id)`, then one signed action that succeeds. -/
def write (user : Did) (id : ReleaseId) (action : Action) : Listing :=
  releases.modify id fun release => release.action user action

def artifact (id : ReleaseId) (cid : Cid) : Option Artifact :=
  (releases.get? id).bind fun release => release.artifact cid

/-- `find_by_cid`: the releases that hold the content. -/
def findByCid (cid : Cid) : List (ReleaseId × Release) :=
  releases.entries.filter fun entry => (entry.2.artifact cid).isSome

/-- The user's locations for the content in one release. -/
def urlsOf (id : ReleaseId) (cid : Cid) (user : Did) : List Url :=
  match (releases.artifact id cid).bind fun artifact => artifact.locationsOf user with
  | some urls => urls.toList
  | none => []

/-- The release holds an artifact with the content identifier. -/
def Registered (id : ReleaseId) (cid : Cid) : Prop :=
  ∃ artifact, releases.artifact id cid = some artifact

/-- The user's location for the content in the release. -/
def Located (id : ReleaseId) (cid : Cid) (user : Did) (url : Url) : Prop :=
  ∃ artifact, releases.artifact id cid = some artifact ∧ artifact.hasLocation user url = true

variable {releases} {user : Did} {id : ReleaseId} {cid : Cid} {url : Url}

theorem Located.registered (hlocated : releases.Located id cid user url) :
    releases.Registered id cid := by
  obtain ⟨artifact, hartifact, -⟩ := hlocated
  exact ⟨artifact, hartifact⟩

theorem artifact_eq_some_iff {artifact : Artifact} :
    releases.artifact id cid = some artifact ↔
      ∃ release, (id, release) ∈ releases.entries ∧ release.artifact cid = some artifact := by
  rw [Listing.artifact, Option.bind_eq_some_iff]
  simp only [IndexMap.get?_eq_some_iff_mem]

theorem registered_iff :
    releases.Registered id cid ↔ id ∈ (releases.findByCid cid).map Prod.fst := by
  simp only [Registered, artifact_eq_some_iff, findByCid, List.mem_map, List.mem_filter,
    Option.isSome_iff_exists]
  constructor
  · rintro ⟨artifact, release, hentry, hartifact⟩
    exact ⟨(id, release), ⟨hentry, artifact, hartifact⟩, rfl⟩
  · rintro ⟨⟨id, release⟩, ⟨hentry, artifact, hartifact⟩, rfl⟩
    exact ⟨artifact, release, hentry, hartifact⟩

theorem mem_urlsOf : url ∈ releases.urlsOf id cid user ↔ releases.Located id cid user url := by
  rw [urlsOf, Located]
  cases releases.artifact id cid with
  | none => simp
  | some artifact =>
      rw [Option.bind_some]
      cases hurls : artifact.locationsOf user <;> simp [Artifact.hasLocation, hurls]

/-! ## One write -/

/-- An action on one artifact changes that artifact. -/
theorem artifact_write {action : Action} {change : Artifact → Artifact}
    (hchange : ∀ release : Release, release.action user action = release.withArtifact cid change)
    (wantedId : ReleaseId) (wanted : Cid) :
    (releases.write user id action).artifact wantedId wanted =
      if wantedId = id ∧ wanted = cid then (releases.artifact wantedId wanted).map change
      else releases.artifact wantedId wanted := by
  rw [artifact, artifact, write, IndexMap.get?_modify]
  by_cases hid : wantedId = id
  · rw [if_pos hid]
    cases releases.get? wantedId with
    | none => simp
    | some release => by_cases hcid : wanted = cid <;> simp [hid, hcid, hchange]
  · rw [if_neg hid, if_neg fun hboth => hid hboth.1]

theorem registered_write {action : Action} {change : Artifact → Artifact}
    (hchange : ∀ release : Release, release.action user action = release.withArtifact cid change)
    {wantedId : ReleaseId} {wanted : Cid} :
    (releases.write user id action).Registered wantedId wanted ↔
      releases.Registered wantedId wanted := by
  rw [Registered, Registered, artifact_write hchange]
  by_cases hwanted : wantedId = id ∧ wanted = cid
  · simp [if_pos hwanted]
  · rw [if_neg hwanted]

theorem located_write {action : Action} {change : Artifact → Artifact}
    (hchange : ∀ release : Release, release.action user action = release.withArtifact cid change)
    {wantedId : ReleaseId} {wanted : Cid} {other : Did} {wantedUrl : Url} :
    (releases.write user id action).Located wantedId wanted other wantedUrl ↔
      ∃ artifact, releases.artifact wantedId wanted = some artifact ∧
        if wantedId = id ∧ wanted = cid then (change artifact).hasLocation other wantedUrl = true
        else artifact.hasLocation other wantedUrl = true := by
  rw [Located, artifact_write hchange]
  by_cases hwanted : wantedId = id ∧ wanted = cid
  · simp [if_pos hwanted]
  · simp [if_neg hwanted]

theorem located_addLocation {wantedId : ReleaseId} {wanted : Cid} {other : Did}
    {wantedUrl : Url} :
    (releases.write user id (.addLocation cid url)).Located wantedId wanted other wantedUrl ↔
      releases.Located wantedId wanted other wantedUrl ∨
        releases.Registered wantedId wanted ∧
          (wantedId = id ∧ wanted = cid ∧ other = user ∧ wantedUrl = url) := by
  rw [located_write fun release => rfl, Located, Registered]
  cases releases.artifact wantedId wanted with
  | none => simp
  | some artifact =>
      by_cases hwanted : wantedId = id ∧ wanted = cid <;>
        by_cases hours : other = user ∧ wantedUrl = url <;> simp [hwanted, hours]

theorem located_removeLocation {wantedId : ReleaseId} {wanted : Cid} {other : Did}
    {wantedUrl : Url} :
    (releases.write user id (.removeLocation cid url)).Located wantedId wanted other wantedUrl ↔
      releases.Located wantedId wanted other wantedUrl ∧
        ¬ (wantedId = id ∧ wanted = cid ∧ other = user ∧ wantedUrl = url) := by
  rw [located_write fun release => rfl, Located]
  cases releases.artifact wantedId wanted with
  | none => simp
  | some artifact =>
      by_cases hwanted : wantedId = id ∧ wanted = cid <;>
        by_cases hours : other = user ∧ wantedUrl = url <;> simp [hwanted, hours]

/-! ## A series of writes -/

/-- Add one URL to a series of artifacts. -/
def addAll (releases : Listing) (user : Did) (url : Url) (items : List (ReleaseId × Cid)) :
    Listing :=
  items.foldl (fun releases item => releases.write user item.1 (.addLocation item.2 url)) releases

/-- Remove a series of URLs. -/
def removeAll (releases : Listing) (user : Did) (items : List (ReleaseId × Cid × Url)) :
    Listing :=
  items.foldl (fun releases item =>
    releases.write user item.1 (.removeLocation item.2.1 item.2.2)) releases

@[simp]
theorem registered_addAll {items : List (ReleaseId × Cid)} :
    (releases.addAll user url items).Registered id cid ↔ releases.Registered id cid := by
  induction items generalizing releases with
  | nil => rfl
  | cons item items ih => exact ih.trans (registered_write fun release => rfl)

@[simp]
theorem registered_removeAll {items : List (ReleaseId × Cid × Url)} :
    (releases.removeAll user items).Registered id cid ↔ releases.Registered id cid := by
  induction items generalizing releases with
  | nil => rfl
  | cons item items ih => exact ih.trans (registered_write fun release => rfl)

theorem located_addAll {items : List (ReleaseId × Cid)} {other : Did} {wanted : Url} :
    (releases.addAll user url items).Located id cid other wanted ↔
      releases.Located id cid other wanted ∨
        releases.Registered id cid ∧ (id, cid) ∈ items ∧ other = user ∧ wanted = url := by
  induction items generalizing releases with
  | nil => simp [addAll]
  | cons item items ih =>
      have hfirst : (releases.write user item.1 (.addLocation item.2 url)).Registered id cid ↔
          releases.Registered id cid := registered_write fun release => rfl
      rw [addAll, List.foldl_cons, ← addAll, ih, located_addLocation, hfirst, List.mem_cons,
        Prod.ext_iff]
      tauto

theorem located_removeAll {items : List (ReleaseId × Cid × Url)} {other : Did} {wanted : Url} :
    (releases.removeAll user items).Located id cid other wanted ↔
      releases.Located id cid other wanted ∧ ¬ ((id, cid, wanted) ∈ items ∧ other = user) := by
  induction items generalizing releases with
  | nil => simp [removeAll]
  | cons item items ih =>
      rw [removeAll, List.foldl_cons, ← removeAll, ih, located_removeLocation, List.mem_cons,
        Prod.ext_iff, Prod.ext_iff]
      tauto

end Listing

end RadicleArtifact.Releases
