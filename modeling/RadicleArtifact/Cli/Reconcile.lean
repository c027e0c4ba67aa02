import RadicleArtifact.Core.Keys
import RadicleArtifact.Library.Sorting
import RadicleArtifact.Library.Sweep
import RadicleArtifact.Releases.Locations

/-!
# Reconciling locations with the seeded set

`reconcile` compares the locations under our DID with what the node seeds: it adds a
location for seeded content that has none at the current endpoint, and removes
orphaned and stale ones when asked.  One run converges, and another changes nothing.
-/

namespace RadicleArtifact.Cli

open RadicleArtifact.Core
open RadicleArtifact.Library
open RadicleArtifact.Cob
open RadicleArtifact.Releases

/-- One endpoint URL under our DID. -/
structure OurLocation where
  releaseId : ReleaseId
  cid : Cid
  url : Url

/-- One artifact of one release. -/
structure ReleaseArtifact where
  releaseId : ReleaseId
  timestamp : ℕ
  cid : Cid

structure Classified where
  /-- What already has a current-endpoint location under our DID. -/
  currentEndpointHave : Finset Cid
  /-- Current-endpoint locations whose content is not seeded. -/
  orphanedSelf : List (ReleaseId × Cid × Url)
  /-- Locations pinned to a different, or undecodable, endpoint id. -/
  staleEndpoint : List (ReleaseId × Cid × Url)

structure MissingScan where
  /-- Seeded content not advertised yet, with the most recent release that holds it. -/
  missing : List (ReleaseId × Cid)
  /-- Seeded content of no release. -/
  dangling : List Cid

/-- One affected location. -/
structure LocationRow where
  rid : RepoId
  releaseId : ReleaseId
  cid : Cid
  url : Url

/-- A seeded tag with no release for its content. -/
structure DanglingRow where
  rid : RepoId
  cid : Cid

structure RepoReport where
  added : ℕ
  removed : ℕ
  orphanedSelfSkipped : List LocationRow
  staleEndpointSkipped : List LocationRow
  dangling : List DanglingRow

structure ReconcileCtx where
  endpointId : EndpointId
  localDid : Did
  removeOrphaned : Finset Cid
  removeOrphanedSelf : Bool

section Plan

variable (forms : EndpointForms)

/-- Sort one of our locations into its bucket. -/
def classifyLocation (endpointId : EndpointId) (seeded : List Cid) (out : Classified)
    (location : OurLocation) : Classified :=
  let row := (location.releaseId, location.cid, location.url)
  if forms.matchesUrl endpointId location.url then
    { out with
      currentEndpointHave := insert location.cid out.currentEndpointHave
      orphanedSelf :=
        if location.cid ∉ seeded then out.orphanedSelf ++ [row] else out.orphanedSelf }
  else { out with staleEndpoint := out.staleEndpoint ++ [row] }

def classifyLocations (endpointId : EndpointId) (seeded : List Cid)
    (locations : List OurLocation) : Classified :=
  locations.foldl (classifyLocation forms endpointId seeded) ⟨∅, [], []⟩

/-- The most recent release that holds the content. -/
def anchor (artifacts : List ReleaseArtifact) (cid : Cid) : Option ReleaseId :=
  (maxByKey ReleaseArtifact.timestamp (artifacts.filter fun artifact => artifact.cid = cid)).map
    ReleaseArtifact.releaseId

def findMissing (seeded : List Cid) (currentHave : Finset Cid)
    (artifacts : List ReleaseArtifact) : MissingScan :=
  seeded.foldl (fun scan cid =>
    if cid ∈ currentHave then scan
    else
      match anchor artifacts cid with
      | some releaseId => { scan with missing := scan.missing ++ [(releaseId, cid)] }
      | none => { scan with dangling := scan.dangling ++ [cid] }) ⟨[], []⟩

/-- Every artifact of every release, with the creation time of the release. -/
def allArtifacts (asSecs : Timestamp → ℕ) (releases : Listing) : List ReleaseArtifact :=
  releases.entries.flatMap fun entry =>
    entry.2.artifacts.entries.map fun artifact => ⟨entry.1, asSecs entry.2.timestamp, artifact.1⟩

/-- The endpoint URLs under our DID, those of the legacy scheme too. -/
def ourLocations (localDid : Did) (releases : Listing) : List OurLocation :=
  releases.entries.flatMap fun entry =>
    entry.2.artifacts.entries.flatMap fun artifact =>
      match artifact.2.locationsOf localDid with
      | none => []
      | some urls =>
          (urls.toList.filter fun url =>
            EndpointId.isEndpointUrl url || EndpointId.isLegacyEndpointUrl url).map
              fun url => ⟨entry.1, artifact.1, url⟩

end Plan

section Apply

variable (ctx : ReconcileCtx) (rid : RepoId)

/-- Additions are always made. -/
def addMissing (forms : EndpointForms) (state : RepoReport × Listing)
    (item : ReleaseId × Cid) : RepoReport × Listing :=
  let url := forms.toUrl ctx.endpointId
  ({ state.1 with added := state.1.added + 1 },
    state.2.write ctx.localDid item.1 (.addLocation item.2 url))

/-- Our location is removed. -/
def removeLocation (state : RepoReport × Listing) (item : ReleaseId × Cid × Url) :
    RepoReport × Listing :=
  ({ state.1 with removed := state.1.removed + 1 },
    state.2.write ctx.localDid item.1 (.removeLocation item.2.1 item.2.2))

def removeOrphanedSelf (state : RepoReport × Listing) (item : ReleaseId × Cid × Url) :
    RepoReport × Listing :=
  if ctx.removeOrphanedSelf || item.2.1 ∈ ctx.removeOrphaned then removeLocation ctx state item
  else
    ({ state.1 with
      orphanedSelfSkipped := state.1.orphanedSelfSkipped ++ [⟨rid, item.1, item.2.1, item.2.2⟩] },
      state.2)

def removeStaleEndpoint (state : RepoReport × Listing) (item : ReleaseId × Cid × Url) :
    RepoReport × Listing :=
  if ctx.removeOrphanedSelf then removeLocation ctx state item
  else
    ({ state.1 with
      staleEndpointSkipped := state.1.staleEndpointSkipped ++ [⟨rid, item.1, item.2.1, item.2.2⟩] },
      state.2)

/-- Reconcile one repository.  `seeded` is what the node answers, in the order the
set is iterated; the writes succeed. -/
def reconcileOne (forms : EndpointForms) (asSecs : Timestamp → ℕ) (seeded : List Cid)
    (releases : Listing) : RepoReport × Listing :=
  let classified := classifyLocations forms ctx.endpointId seeded
    (ourLocations ctx.localDid releases)
  let scan := findMissing seeded classified.currentEndpointHave (allArtifacts asSecs releases)
  let report : RepoReport := ⟨0, 0, [], [], scan.dangling.map fun cid => ⟨rid, cid⟩⟩
  let state := scan.missing.foldl (addMissing ctx forms) (report, releases)
  let state := classified.orphanedSelf.foldl (removeOrphanedSelf ctx rid) state
  classified.staleEndpoint.foldl (removeStaleEndpoint ctx rid) state

end Apply

/-! ## The plan -/

section Plan

variable {forms : EndpointForms} {endpointId : EndpointId} {localDid : Did}
  {seeded : List Cid} {releases : Listing}

theorem mem_ourLocations {location : OurLocation} :
    location ∈ ourLocations localDid releases ↔
      releases.Located location.releaseId location.cid localDid location.url ∧
        (EndpointId.isEndpointUrl location.url ∨
          EndpointId.isLegacyEndpointUrl location.url) := by
  obtain ⟨id, cid, url⟩ := location
  simp only [ourLocations, List.mem_flatMap, Listing.Located, Listing.artifact_eq_some_iff]
  constructor
  · rintro ⟨⟨entryId, release⟩, hrelease, ⟨entryCid, artifact⟩, hartifact, hlocation⟩
    cases hurls : artifact.locationsOf localDid with
    | none => simp [hurls] at hlocation
    | some urls =>
        simp only [hurls, List.mem_map, List.mem_filter, Bool.or_eq_true] at hlocation
        obtain ⟨found, ⟨hfound, hscheme⟩, heq⟩ := hlocation
        obtain ⟨rfl, rfl, rfl⟩ := OurLocation.mk.inj heq
        exact ⟨⟨artifact, ⟨release, hrelease, IndexMap.get?_eq_some_iff_mem.mpr hartifact⟩,
          by simpa [Artifact.hasLocation, hurls] using hfound⟩, hscheme⟩
  · rintro ⟨⟨artifact, ⟨release, hrelease, hartifact⟩, hlocation⟩, hscheme⟩
    refine ⟨(id, release), hrelease, (cid, artifact),
      IndexMap.get?_eq_some_iff_mem.mp hartifact, ?_⟩
    rw [Artifact.hasLocation, Option.any_eq_true] at hlocation
    obtain ⟨urls, hurls, hurl⟩ := hlocation
    simp only [hurls, List.mem_map, List.mem_filter, Bool.or_eq_true]
    exact ⟨url, ⟨by simpa using hurl, hscheme⟩, rfl⟩

/-- Each bucket in closed form. -/
theorem classifyLocations_eq (locations : List OurLocation) :
    classifyLocations forms endpointId seeded locations =
      { currentEndpointHave :=
          ((locations.filter fun location =>
            forms.matchesUrl endpointId location.url).map OurLocation.cid).toFinset
        orphanedSelf :=
          (locations.filter fun location =>
            forms.matchesUrl endpointId location.url && location.cid ∉ seeded).map
              fun location => (location.releaseId, location.cid, location.url)
        staleEndpoint :=
          (locations.filter fun location => !forms.matchesUrl endpointId location.url).map
            fun location => (location.releaseId, location.cid, location.url) } := by
  induction locations using List.reverseRecOn with
  | nil => rfl
  | append_singleton locations last ih =>
      rw [classifyLocations, List.foldl_append, List.foldl_cons, List.foldl_nil,
        ← classifyLocations, ih, classifyLocation]
      by_cases hmatches : forms.matchesUrl endpointId last.url
      · by_cases hseeded : last.cid ∈ seeded <;> simp [hmatches, hseeded, Finset.union_comm]
      · simp [hmatches]

/-- Some location of ours advertises the content at the current endpoint. -/
def Advertised (forms : EndpointForms) (endpointId : EndpointId) (localDid : Did)
    (releases : Listing) (cid : Cid) : Prop :=
  ∃ id url, releases.Located id cid localDid url ∧ forms.matchesUrl endpointId url = true

theorem mem_currentEndpointHave {cid : Cid} :
    cid ∈ (classifyLocations forms endpointId seeded
        (ourLocations localDid releases)).currentEndpointHave ↔
      Advertised forms endpointId localDid releases cid := by
  rw [classifyLocations_eq]
  simp only [List.mem_toFinset, List.mem_map, List.mem_filter, mem_ourLocations]
  constructor
  · rintro ⟨location, ⟨⟨hlocated, -⟩, hmatches⟩, rfl⟩
    exact ⟨location.releaseId, location.url, hlocated, hmatches⟩
  · rintro ⟨id, url, hlocated, hmatches⟩
    exact ⟨⟨id, cid, url⟩, ⟨⟨hlocated, .inl (forms.isEndpointUrl_of_matchesUrl hmatches)⟩,
      hmatches⟩, rfl⟩

theorem mem_orphanedSelf {id : ReleaseId} {cid : Cid} {url : Url} :
    (id, cid, url) ∈ (classifyLocations forms endpointId seeded
        (ourLocations localDid releases)).orphanedSelf ↔
      releases.Located id cid localDid url ∧ forms.matchesUrl endpointId url = true ∧
        cid ∉ seeded := by
  rw [classifyLocations_eq]
  simp only [List.mem_map, List.mem_filter, mem_ourLocations, Bool.and_eq_true,
    decide_eq_true_eq]
  constructor
  · rintro ⟨location, ⟨⟨hlocated, -⟩, hmatches, hseeded⟩, heq⟩
    obtain ⟨rfl, rfl, rfl⟩ := heq
    exact ⟨hlocated, hmatches, hseeded⟩
  · rintro ⟨hlocated, hmatches, hseeded⟩
    exact ⟨⟨id, cid, url⟩, ⟨⟨hlocated, .inl (forms.isEndpointUrl_of_matchesUrl hmatches)⟩,
      hmatches, hseeded⟩, rfl⟩

theorem mem_staleEndpoint {id : ReleaseId} {cid : Cid} {url : Url} :
    (id, cid, url) ∈ (classifyLocations forms endpointId seeded
        (ourLocations localDid releases)).staleEndpoint ↔
      (releases.Located id cid localDid url ∧
        (EndpointId.isEndpointUrl url ∨ EndpointId.isLegacyEndpointUrl url)) ∧
          forms.matchesUrl endpointId url = false := by
  rw [classifyLocations_eq]
  simp only [List.mem_map, List.mem_filter, mem_ourLocations, Bool.not_eq_true']
  constructor
  · rintro ⟨location, hlocation, heq⟩
    obtain ⟨rfl, rfl, rfl⟩ := heq
    exact hlocation
  · intro hlocation
    exact ⟨⟨id, cid, url⟩, hlocation, rfl⟩

theorem mem_allArtifacts (asSecs : Timestamp → ℕ) {id : ReleaseId} {cid : Cid} :
    (∃ artifact ∈ allArtifacts asSecs releases, artifact.releaseId = id ∧ artifact.cid = cid) ↔
      releases.Registered id cid := by
  simp only [allArtifacts, List.mem_flatMap, List.mem_map, Listing.Registered,
    Listing.artifact_eq_some_iff]
  constructor
  · rintro ⟨-, ⟨⟨id, release⟩, hrelease, ⟨cid, artifact⟩, hartifact, rfl⟩, rfl, rfl⟩
    exact ⟨artifact, release, hrelease, IndexMap.get?_eq_some_iff_mem.mpr hartifact⟩
  · rintro ⟨artifact, release, hrelease, hartifact⟩
    exact ⟨_, ⟨(id, release), hrelease, (cid, artifact),
      IndexMap.get?_eq_some_iff_mem.mp hartifact, rfl⟩, rfl, rfl⟩

/-- The chosen release holds the content. -/
theorem registered_of_anchor {asSecs : Timestamp → ℕ} {id : ReleaseId} {cid : Cid}
    (hanchor : anchor (allArtifacts asSecs releases) cid = some id) :
    releases.Registered id cid := by
  obtain ⟨artifact, hmax, rfl⟩ := Option.map_eq_some_iff.mp hanchor
  have hmem := List.mem_filter.mp (mem_of_maxByKey_eq_some hmax)
  exact (mem_allArtifacts _).mp ⟨artifact, hmem.1, rfl, of_decide_eq_true hmem.2⟩

theorem anchor_eq_none_iff {asSecs : Timestamp → ℕ} {cid : Cid} :
    anchor (allArtifacts asSecs releases) cid = none ↔ ∀ id, ¬ releases.Registered id cid := by
  rw [anchor, Option.map_eq_none_iff, maxByKey_eq_none_iff, List.filter_eq_nil_iff]
  constructor
  · intro hnone id hregistered
    obtain ⟨artifact, hartifact, -, hcid⟩ := (mem_allArtifacts asSecs).mpr hregistered
    exact hnone artifact hartifact (decide_eq_true hcid)
  · intro hnone artifact hartifact hcid
    exact hnone artifact.releaseId
      ((mem_allArtifacts asSecs).mp ⟨artifact, hartifact, rfl, of_decide_eq_true hcid⟩)

theorem findMissing_eq (currentHave : Finset Cid) (artifacts : List ReleaseArtifact) :
    findMissing seeded currentHave artifacts =
      { missing := (seeded.filter (· ∉ currentHave)).filterMap fun cid =>
          (anchor artifacts cid).map fun id => (id, cid)
        dangling := (seeded.filter (· ∉ currentHave)).filter fun cid =>
          (anchor artifacts cid).isNone } := by
  induction seeded using List.reverseRecOn with
  | nil => rfl
  | append_singleton seeded last ih =>
      rw [findMissing, List.foldl_append, List.foldl_cons, List.foldl_nil, ← findMissing, ih]
      by_cases hhave : last ∈ currentHave
      · simp [hhave]
      · cases hanchor : anchor artifacts last <;> simp [hhave, hanchor]

end Plan

/-! ## The writes -/

section Apply

variable {forms : EndpointForms} (ctx : ReconcileCtx) (rid : RepoId)

/-- The orphaned locations that the options ask to remove. -/
def orphanedRemoved (items : List (ReleaseId × Cid × Url)) : List (ReleaseId × Cid × Url) :=
  items.filter fun item => ctx.removeOrphanedSelf || item.2.1 ∈ ctx.removeOrphaned

/-- The stale locations that the options ask to remove. -/
def staleRemoved (items : List (ReleaseId × Cid × Url)) : List (ReleaseId × Cid × Url) :=
  if ctx.removeOrphanedSelf then items else []

theorem snd_foldl_addMissing (items : List (ReleaseId × Cid)) (state : RepoReport × Listing) :
    (items.foldl (addMissing ctx forms) state).2 =
      state.2.addAll ctx.localDid (forms.toUrl ctx.endpointId) items :=
  (List.foldl_hom Prod.snd fun _ _ => rfl).symm

theorem snd_foldl_removeOrphanedSelf (items : List (ReleaseId × Cid × Url))
    (state : RepoReport × Listing) :
    (items.foldl (removeOrphanedSelf ctx rid) state).2 =
      state.2.removeAll ctx.localDid (orphanedRemoved ctx items) := by
  induction items generalizing state with
  | nil => rfl
  | cons item items ih =>
      rw [List.foldl_cons, ih, removeOrphanedSelf, orphanedRemoved, orphanedRemoved,
        List.filter_cons]
      split <;> rfl

theorem snd_foldl_removeStaleEndpoint (items : List (ReleaseId × Cid × Url))
    (state : RepoReport × Listing) :
    (items.foldl (removeStaleEndpoint ctx rid) state).2 =
      state.2.removeAll ctx.localDid (staleRemoved ctx items) := by
  rw [staleRemoved]
  induction items generalizing state with
  | nil => simp [Listing.removeAll]
  | cons item items ih =>
      rw [List.foldl_cons, ih, removeStaleEndpoint]
      split <;> rfl

variable {ctx rid} {asSecs : Timestamp → ℕ} {seeded : List Cid} {releases : Listing}

theorem mem_missing {id : ReleaseId} {cid : Cid} :
    (id, cid) ∈ (findMissing seeded (classifyLocations forms ctx.endpointId seeded
        (ourLocations ctx.localDid releases)).currentEndpointHave
          (allArtifacts asSecs releases)).missing ↔
      cid ∈ seeded ∧ ¬ Advertised forms ctx.endpointId ctx.localDid releases cid ∧
        anchor (allArtifacts asSecs releases) cid = some id := by
  rw [findMissing_eq]
  simp only [List.mem_filterMap, List.mem_filter, decide_eq_true_eq, mem_currentEndpointHave,
    Option.map_eq_some_iff, Prod.mk.injEq]
  constructor
  · rintro ⟨cid, ⟨hseeded, hunadvertised⟩, id, hanchor, rfl, rfl⟩
    exact ⟨hseeded, hunadvertised, hanchor⟩
  · rintro ⟨hseeded, hunadvertised, hanchor⟩
    exact ⟨cid, ⟨hseeded, hunadvertised⟩, id, hanchor, rfl, rfl⟩

/-- The locations a run leaves: those there were and the missing ones added, without
the orphaned and the stale ones it was asked to remove. -/
theorem located_reconcileOne {id : ReleaseId} {cid : Cid} {user : Did} {url : Url} :
    (reconcileOne ctx rid forms asSecs seeded releases).2.Located id cid user url ↔
      (releases.Located id cid user url ∨
        user = ctx.localDid ∧ url = forms.toUrl ctx.endpointId ∧ cid ∈ seeded ∧
          ¬ Advertised forms ctx.endpointId ctx.localDid releases cid ∧
          anchor (allArtifacts asSecs releases) cid = some id) ∧
      ¬ (user = ctx.localDid ∧ releases.Located id cid ctx.localDid url ∧
        forms.matchesUrl ctx.endpointId url = true ∧ cid ∉ seeded ∧
        (ctx.removeOrphanedSelf = true ∨ cid ∈ ctx.removeOrphaned)) ∧
      ¬ (user = ctx.localDid ∧ releases.Located id cid ctx.localDid url ∧
        (EndpointId.isEndpointUrl url ∨ EndpointId.isLegacyEndpointUrl url) ∧
        forms.matchesUrl ctx.endpointId url = false ∧ ctx.removeOrphanedSelf = true) := by
  have hremoved : (id, cid, url) ∈ staleRemoved ctx (classifyLocations forms ctx.endpointId seeded
      (ourLocations ctx.localDid releases)).staleEndpoint ↔
        ctx.removeOrphanedSelf = true ∧ (id, cid, url) ∈ (classifyLocations forms ctx.endpointId
          seeded (ourLocations ctx.localDid releases)).staleEndpoint := by
    rw [staleRemoved]
    split <;> simp [*]
  rw [reconcileOne]
  simp only [snd_foldl_removeStaleEndpoint, snd_foldl_removeOrphanedSelf, snd_foldl_addMissing,
    Listing.located_removeAll, Listing.located_addAll, mem_missing, hremoved, mem_staleEndpoint,
    orphanedRemoved, List.mem_filter, mem_orphanedSelf, Bool.or_eq_true, decide_eq_true_eq]
  rw [and_assoc]
  refine and_congr (or_congr_right ?_) (and_congr (not_congr ?_) (not_congr ?_))
  · constructor
    · rintro ⟨-, ⟨hseeded, hunadvertised, hanchor⟩, huser, hurl⟩
      exact ⟨huser, hurl, hseeded, hunadvertised, hanchor⟩
    · rintro ⟨huser, hurl, hseeded, hunadvertised, hanchor⟩
      exact ⟨registered_of_anchor hanchor, ⟨hseeded, hunadvertised, hanchor⟩, huser, hurl⟩
  · constructor
    · rintro ⟨⟨⟨hlocated, hmatches, hseeded⟩, hasked⟩, huser⟩
      exact ⟨huser, hlocated, hmatches, hseeded, hasked⟩
    · rintro ⟨huser, hlocated, hmatches, hseeded, hasked⟩
      exact ⟨⟨⟨hlocated, hmatches, hseeded⟩, hasked⟩, huser⟩
  · constructor
    · rintro ⟨⟨hasked, ⟨hlocated, hscheme⟩, hmatches⟩, huser⟩
      exact ⟨huser, hlocated, hscheme, hmatches, hasked⟩
    · rintro ⟨huser, hlocated, hscheme, hmatches, hasked⟩
      exact ⟨⟨hasked, ⟨hlocated, hscheme⟩, hmatches⟩, huser⟩

theorem registered_reconcileOne {id : ReleaseId} {cid : Cid} :
    (reconcileOne ctx rid forms asSecs seeded releases).2.Registered id cid ↔
      releases.Registered id cid := by
  rw [reconcileOne]
  simp only [snd_foldl_removeStaleEndpoint, snd_foldl_removeOrphanedSelf, snd_foldl_addMissing,
    Listing.registered_removeAll, Listing.registered_addAll]

/-- The seeded content that no release holds. -/
def danglingCids (asSecs : Timestamp → ℕ) (releases : Listing) (seeded : List Cid) : List Cid :=
  seeded.filter fun cid => (anchor (allArtifacts asSecs releases) cid).isNone

theorem mem_danglingCids {cid : Cid} :
    cid ∈ danglingCids asSecs releases seeded ↔
      cid ∈ seeded ∧ ∀ id, ¬ releases.Registered id cid := by
  rw [danglingCids, List.mem_filter, Option.isNone_iff_eq_none, anchor_eq_none_iff]

theorem dangling_findMissing (forms : EndpointForms) (ctx : ReconcileCtx) :
    (findMissing seeded (classifyLocations forms ctx.endpointId seeded
        (ourLocations ctx.localDid releases)).currentEndpointHave
          (allArtifacts asSecs releases)).dangling = danglingCids asSecs releases seeded := by
  rw [findMissing_eq]
  show (seeded.filter _).filter _ = _
  rw [List.filter_filter, danglingCids]
  refine List.filter_congr fun cid _ => ?_
  cases hanchor : anchor (allArtifacts asSecs releases) cid with
  | some id => simp
  | none =>
      rw [anchor_eq_none_iff] at hanchor
      simp only [Option.isNone_none, Bool.true_and, decide_eq_true_eq, mem_currentEndpointHave]
      rintro ⟨id, url, hlocated, -⟩
      exact hanchor id hlocated.registered

theorem dangling_reconcileOne :
    (reconcileOne ctx rid forms asSecs seeded releases).1.dangling =
      (danglingCids asSecs releases seeded).map fun cid => ⟨rid, cid⟩ := by
  rw [← dangling_findMissing forms ctx]
  let kept (state : RepoReport × Listing) : Prop := state.1.dangling =
    (findMissing seeded (classifyLocations forms ctx.endpointId seeded
      (ourLocations ctx.localDid releases)).currentEndpointHave
        (allArtifacts asSecs releases)).dangling.map fun cid => ⟨rid, cid⟩
  show kept (reconcileOne ctx rid forms asSecs seeded releases)
  have hadd : ∀ state item, kept state → kept (addMissing ctx forms state item) :=
    fun state item hstate => hstate
  have horphaned : ∀ state item, kept state → kept (removeOrphanedSelf ctx rid state item) := by
    intro state item hstate
    rw [removeOrphanedSelf]
    split <;> exact hstate
  have hstale : ∀ state item, kept state → kept (removeStaleEndpoint ctx rid state item) := by
    intro state item hstate
    rw [removeStaleEndpoint]
    split <;> exact hstate
  exact foldl_preserves hstale _ (foldl_preserves horphaned _ (foldl_preserves hadd _ rfl))

/-! ## Convergence -/

/-- What is seeded is advertised, if a release holds it, and what is advertised under
our DID is seeded at the current endpoint. -/
structure Converged (forms : EndpointForms) (ctx : ReconcileCtx) (seeded : List Cid)
    (releases : Listing) : Prop where
  advertised : ∀ cid ∈ seeded, (∀ id, ¬ releases.Registered id cid) ∨
    Advertised forms ctx.endpointId ctx.localDid releases cid
  seeded : ∀ id cid url, releases.Located id cid ctx.localDid url →
    EndpointId.isEndpointUrl url ∨ EndpointId.isLegacyEndpointUrl url →
      forms.matchesUrl ctx.endpointId url = true ∧ cid ∈ seeded

theorem converged_reconcileOne (hremove : ctx.removeOrphanedSelf = true) :
    Converged forms ctx seeded (reconcileOne ctx rid forms asSecs seeded releases).2 where
  advertised cid hseeded := by
    by_cases hadvertised : Advertised forms ctx.endpointId ctx.localDid releases cid
    · obtain ⟨id, url, hlocated, hmatches⟩ := hadvertised
      refine .inr ⟨id, url, located_reconcileOne.mpr ⟨.inl hlocated, ?_, ?_⟩, hmatches⟩
      · exact fun hremoved => hremoved.2.2.2.1 hseeded
      · intro hremoved
        rw [hmatches] at hremoved
        exact absurd hremoved.2.2.2.1 (by decide)
    · cases hanchor : anchor (allArtifacts asSecs releases) cid with
      | none =>
          refine .inl fun id hregistered => ?_
          exact anchor_eq_none_iff.mp hanchor id (registered_reconcileOne.mp hregistered)
      | some id =>
          refine .inr ⟨id, forms.toUrl ctx.endpointId, located_reconcileOne.mpr
            ⟨.inr ⟨rfl, rfl, hseeded, hadvertised, hanchor⟩, ?_, ?_⟩,
            EndpointForms.matchesUrl_toUrl _⟩
          · exact fun hremoved => hremoved.2.2.2.1 hseeded
          · intro hremoved
            rw [EndpointForms.matchesUrl_toUrl] at hremoved
            exact absurd hremoved.2.2.2.1 (by decide)
  seeded id cid url hlocated hscheme := by
    obtain ⟨hkept, horphaned, hstale⟩ := located_reconcileOne.mp hlocated
    rcases hkept with hold | ⟨-, rfl, hseeded, -⟩
    · have hmatches : forms.matchesUrl ctx.endpointId url = true := by
        by_contra hother
        exact hstale ⟨rfl, hold, hscheme, Bool.not_eq_true _ ▸ hother, hremove⟩
      refine ⟨hmatches, ?_⟩
      by_contra hseeded
      exact horphaned ⟨rfl, hold, hmatches, hseeded, .inl hremove⟩
    · exact ⟨EndpointForms.matchesUrl_toUrl _, hseeded⟩

/-- Where locations and seeded set agree, a run writes nothing. -/
theorem reconcileOne_of_converged (hconverged : Converged forms ctx seeded releases) :
    reconcileOne ctx rid forms asSecs seeded releases =
      (⟨0, 0, [], [], (danglingCids asSecs releases seeded).map fun cid => ⟨rid, cid⟩⟩,
        releases) := by
  have hmissing : (findMissing seeded (classifyLocations forms ctx.endpointId seeded
      (ourLocations ctx.localDid releases)).currentEndpointHave
        (allArtifacts asSecs releases)).missing = [] := by
    refine List.eq_nil_iff_forall_not_mem.mpr fun ⟨id, cid⟩ hmem => ?_
    obtain ⟨hseeded, hunadvertised, hanchor⟩ := mem_missing.mp hmem
    rcases hconverged.advertised cid hseeded with hunregistered | hadvertised
    · exact hunregistered id (registered_of_anchor hanchor)
    · exact hunadvertised hadvertised
  have horphaned : (classifyLocations forms ctx.endpointId seeded
      (ourLocations ctx.localDid releases)).orphanedSelf = [] := by
    refine List.eq_nil_iff_forall_not_mem.mpr fun ⟨id, cid, url⟩ hmem => ?_
    obtain ⟨hlocated, hmatches, hunseeded⟩ := mem_orphanedSelf.mp hmem
    exact hunseeded (hconverged.seeded id cid url hlocated
      (.inl (forms.isEndpointUrl_of_matchesUrl hmatches))).2
  have hstale : (classifyLocations forms ctx.endpointId seeded
      (ourLocations ctx.localDid releases)).staleEndpoint = [] := by
    refine List.eq_nil_iff_forall_not_mem.mpr fun ⟨id, cid, url⟩ hmem => ?_
    obtain ⟨⟨hlocated, hscheme⟩, hother⟩ := mem_staleEndpoint.mp hmem
    rw [(hconverged.seeded id cid url hlocated hscheme).1] at hother
    contradiction
  rw [reconcileOne]
  simp only [hmissing, horphaned, hstale, dangling_findMissing, List.foldl_nil]

/-- One run that removes orphaned and stale locations converges, and another changes
nothing; no run touches the locations of others or of other schemes, and without a
removal option no run removes a location. -/
theorem reconcile_converges (forms : EndpointForms) (asSecs : Timestamp → ℕ)
    (ctx : ReconcileCtx) (rid : RepoId) (seeded : List Cid) (releases : Listing) :
    let first := reconcileOne ctx rid forms asSecs seeded releases
    (ctx.removeOrphanedSelf = true →
      (∀ cid ∈ seeded,
        ((∀ id, ¬ releases.Registered id cid) ∧ ⟨rid, cid⟩ ∈ first.1.dangling) ∨
          ∃ id url, first.2.Located id cid ctx.localDid url ∧
            forms.matchesUrl ctx.endpointId url = true) ∧
      (∀ id cid url, first.2.Located id cid ctx.localDid url →
        EndpointId.isEndpointUrl url ∨ EndpointId.isLegacyEndpointUrl url →
          forms.matchesUrl ctx.endpointId url = true ∧ cid ∈ seeded) ∧
      ∀ again, again.Perm seeded → ∃ dangling,
        reconcileOne ctx rid forms asSecs again first.2 = (⟨0, 0, [], [], dangling⟩, first.2) ∧
          dangling.Perm first.1.dangling) ∧
    (∀ id cid user url, user ≠ ctx.localDid ∨
      ¬ (EndpointId.isEndpointUrl url ∨ EndpointId.isLegacyEndpointUrl url) →
        (first.2.Located id cid user url ↔ releases.Located id cid user url)) ∧
    (ctx.removeOrphaned = ∅ → ctx.removeOrphanedSelf = false →
      ∀ id cid user url, releases.Located id cid user url → first.2.Located id cid user url) := by
  intro first
  refine ⟨fun hremove => ?_, fun id cid user url hother => ?_,
    fun hnone hkeep id cid user url hlocated => ?_⟩
  · have hconverged : Converged forms ctx seeded first.2 := converged_reconcileOne hremove
    refine ⟨fun cid hseeded => ?_, hconverged.seeded, fun again hagain => ?_⟩
    · rcases hconverged.advertised cid hseeded with hunregistered | hadvertised
      · have hbefore : ∀ id, ¬ releases.Registered id cid := fun id hregistered =>
          hunregistered id (registered_reconcileOne.mpr hregistered)
        refine .inl ⟨hbefore, ?_⟩
        rw [dangling_reconcileOne]
        exact List.mem_map_of_mem (mem_danglingCids.mpr ⟨hseeded, hbefore⟩)
      · exact .inr hadvertised
    · have hagain' : Converged forms ctx again first.2 :=
        ⟨fun cid hseeded => hconverged.advertised cid (hagain.mem_iff.mp hseeded),
          fun id cid url hlocated hscheme =>
            (hconverged.seeded id cid url hlocated hscheme).imp_right hagain.mem_iff.mpr⟩
      refine ⟨_, reconcileOne_of_converged hagain', ?_⟩
      rw [dangling_reconcileOne]
      refine List.Perm.map _ ((hagain.filter _).trans (List.Perm.of_eq ?_))
      refine List.filter_congr fun cid _ => ?_
      rw [Bool.eq_iff_iff, Option.isNone_iff_eq_none, Option.isNone_iff_eq_none,
        anchor_eq_none_iff, anchor_eq_none_iff]
      simp only [first, registered_reconcileOne]
  · rw [located_reconcileOne]
    constructor
    · rintro ⟨hlocated | ⟨huser, hurl, -⟩, -⟩
      · exact hlocated
      · refine absurd hother (not_or.mpr ⟨not_not.mpr huser, not_not.mpr (.inl ?_)⟩)
        rw [hurl]
        exact EndpointForms.isEndpointUrl_toUrl _
    · intro hlocated
      refine ⟨.inl hlocated, fun hremoved => ?_, fun hremoved => ?_⟩
      · exact hother.elim (fun huser => huser hremoved.1) fun hscheme =>
          hscheme (.inl (forms.isEndpointUrl_of_matchesUrl hremoved.2.2.1))
      · exact hother.elim (fun huser => huser hremoved.1) fun hscheme => hscheme hremoved.2.2.1
  · refine located_reconcileOne.mpr ⟨.inl hlocated, ?_, ?_⟩
    · rintro ⟨-, -, -, -, hasked⟩
      simp [hnone, hkeep] at hasked
    · rintro ⟨-, -, -, -, hasked⟩
      simp [hkeep] at hasked

end Apply

/-- A seeded artifact with a legacy location: it is advertised at the endpoint, and the
legacy location is gone. -/
theorem reconcile_converges_from_legacy :
    let did : Did := .filled 32 3
    let cid := blake3HashToCid (.filled 32 7) .blob
    let legacy : Url := ⟨"iroh://ambqgaydambqgaydambqgaydambqgaydambqgaydambqgaydambq", by decide⟩
    let forms := EndpointForms.sample (.filled 32 3)
      "ambqgaydambqgaydambqgaydambqgaydambqgaydambqgaydambq" (by decide) (by decide)
    let release := ((Release.new (.filled 20 5) none did 1000).action did
      (.registerArtifact cid "app")).action did (.addLocation cid legacy)
    let releases : Listing := .collect [(.filled 20 1, release)]
    let first := reconcileOne ⟨.filled 32 3, did, ∅, true⟩ (.filled 20 9) forms
      (fun timestamp => timestamp.val / 1000) [cid] releases
    (∃ id url, first.2.Located id cid did url ∧ forms.matchesUrl (.filled 32 3) url = true) ∧
      ∀ id, ¬ first.2.Located id cid did legacy := by
  intro did cid legacy forms release releases first
  obtain ⟨hseeded, hours, -⟩ := (reconcile_converges forms (fun timestamp => timestamp.val / 1000)
    ⟨.filled 32 3, did, ∅, true⟩ (.filled 20 9) [cid] releases).1 rfl
  constructor
  · rcases hseeded cid List.mem_cons_self with ⟨hunregistered, -⟩ | hadvertised
    · exact absurd ⟨_, rfl⟩ (hunregistered (.filled 20 1))
    · exact hadvertised
  · intro id hlocated
    have hmatches := (hours id cid legacy hlocated (.inr (by decide))).1
    exact absurd (EndpointForms.isEndpointUrl_of_matchesUrl hmatches) (by decide)

end RadicleArtifact.Cli
