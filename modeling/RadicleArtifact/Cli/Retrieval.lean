import RadicleArtifact.Cob.Reducer
import RadicleArtifact.Core.Keys
import RadicleArtifact.Core.Protocol

/-!
# Where to fetch an artifact from

The locations that users added to an artifact, in all the releases that hold it, become
one list of places to try: each endpoint once, whichever URL names it, and each plain URL
once.  A host that does not parse is skipped with a warning.
-/

namespace RadicleArtifact.Cli

open RadicleArtifact.Core
open RadicleArtifact.Library
open RadicleArtifact.Cob

deriving instance DecidableEq for FetchLocation

/-- How endpoints are read: from URLs, and from the 32 bytes of a key. -/
structure Endpoints where
  forms : EndpointForms
  /-- `iroh_base::EndpointId::from_bytes` -/
  fromBytes : FixedBytes 32 → Except String EndpointId
  urlText : Url → String

/-- What the loop over the locations has collected. -/
structure Collected where
  seenUrls : BTreeSet Url
  seenIroh : BTreeSet EndpointId
  locations : List FetchLocation
  warnings : List String

namespace Collected

def empty : Collected := ⟨∅, ∅, [], []⟩

def addIroh (collected : Collected) (id : EndpointId) : Collected :=
  if id ∈ collected.seenIroh then collected
  else
    { collected with
      seenIroh := collected.seenIroh.insert id
      locations := collected.locations ++ [.iroh id] }

def addUrl (collected : Collected) (url : Url) : Collected :=
  if url ∈ collected.seenUrls then collected
  else
    { collected with
      seenUrls := collected.seenUrls.insert url
      locations := collected.locations ++ [.url url] }

def warn (collected : Collected) (warning : String) : Collected :=
  { collected with warnings := collected.warnings ++ [warning] }

end Collected

/-- The locations of the artifacts with their contributors. -/
def contributed (artifacts : List Artifact) : List (Did × Url) :=
  artifacts.flatMap fun artifact =>
    artifact.locations.toList.flatMap fun entry => entry.2.toList.map fun url => (entry.1, url)

section Locations

variable (endpoints : Endpoints)

/-- `EndpointId::try_from(&did)` -/
def endpointOfDid (did : Did) : Except Error EndpointId :=
  match endpoints.fromBytes did with
  | .ok id => .ok id
  | .error err => .error (.key ("invalid iroh public key from DID: " ++ err))

def visitLocation (collected : Collected) (entry : Did × Url) : Except Error Collected :=
  if EndpointId.isEndpointUrl entry.2 then
    match endpoints.forms.fromUrl entry.2 with
    | .ok (some id) => .ok (collected.addIroh id)
    | .ok none => (endpointOfDid endpoints entry.1).map collected.addIroh
    | .error err =>
        .ok (collected.warn ("Warning: skipping location " ++ endpoints.urlText entry.2 ++ ": " ++
          err.message))
  else .ok (collected.addUrl entry.2)

/-- Convert locations from artifacts into fetch locations. -/
def artifactLocations (artifacts : List Artifact) : Except Error (List FetchLocation) :=
  ((contributed artifacts).foldlM (visitLocation endpoints) Collected.empty).map
    Collected.locations

/-! ## The loop -/

/-- The bare URL of a user whose key is no endpoint. -/
def Sinks (entry : Did × Url) : Prop :=
  EndpointId.isEndpointUrl entry.2 = true ∧ endpoints.forms.fromUrl entry.2 = .ok none ∧
    ∀ id, endpointOfDid endpoints entry.1 ≠ .ok id

/-- What one location adds to the list. -/
def taken (entry : Did × Url) : Option FetchLocation :=
  if EndpointId.isEndpointUrl entry.2 then
    match endpoints.forms.fromUrl entry.2 with
    | .ok (some id) => some (.iroh id)
    | .ok none => (endpointOfDid endpoints entry.1).toOption.map .iroh
    | .error _ => none
  else some (.url entry.2)

/-- What the loop holds after some locations. -/
structure Collects (entries : List (Did × Url)) (collected : Collected) : Prop where
  locations : collected.locations = (entries.filterMap (taken endpoints)).eraseDups
  iroh : ∀ id, id ∈ collected.seenIroh ↔ .iroh id ∈ collected.locations
  urls : ∀ url, url ∈ collected.seenUrls ↔ .url url ∈ collected.locations

variable {endpoints} {entries later : List (Did × Url)} {entry : Did × Url}
  {collected : Collected}

theorem eraseDups_append_singleton {Item : Type} [DecidableEq Item] (items : List Item)
    (item : Item) :
    (items ++ [item]).eraseDups =
      if item ∈ items.eraseDups then items.eraseDups else items.eraseDups ++ [item] := by
  rw [List.eraseDups_append]
  by_cases hitem : item ∈ items <;> simp [hitem, List.removeAll, List.eraseDups_cons]

theorem Collects.skip (hcollects : Collects endpoints entries collected)
    (hnone : taken endpoints entry = none) (warning : String) :
    Collects endpoints (entries ++ [entry]) (collected.warn warning) where
  locations := by
    rw [List.filterMap_append, List.filterMap_cons_none hnone, List.filterMap_nil, List.append_nil]
    exact hcollects.locations
  iroh := hcollects.iroh
  urls := hcollects.urls

theorem Collects.addIroh (hcollects : Collects endpoints entries collected) {id : EndpointId}
    (hsome : taken endpoints entry = some (.iroh id)) :
    Collects endpoints (entries ++ [entry]) (collected.addIroh id) := by
  have hnext := eraseDups_append_singleton (entries.filterMap (taken endpoints)) (.iroh id)
  have hentries : (entries ++ [entry]).filterMap (taken endpoints) =
      entries.filterMap (taken endpoints) ++ [.iroh id] := by
    rw [List.filterMap_append, List.filterMap_cons_some hsome, List.filterMap_nil]
  rw [← hcollects.locations, ← hentries] at hnext
  rw [Collected.addIroh]
  by_cases hseen : id ∈ collected.seenIroh
  · rw [if_pos hseen]
    rw [if_pos ((hcollects.iroh id).mp hseen)] at hnext
    exact ⟨hnext.symm, hcollects.iroh, hcollects.urls⟩
  · rw [if_neg hseen]
    rw [if_neg fun hmem => hseen ((hcollects.iroh id).mpr hmem)] at hnext
    refine ⟨hnext.symm, fun other => ?_, fun url => ?_⟩
    · rw [Std.ExtTreeSet.mem_insert, compare_eq_iff_eq, hcollects.iroh]
      simp [or_comm, eq_comm]
    · simp [hcollects.urls]

theorem Collects.addUrl (hcollects : Collects endpoints entries collected) {url : Url}
    (hsome : taken endpoints entry = some (.url url)) :
    Collects endpoints (entries ++ [entry]) (collected.addUrl url) := by
  have hnext := eraseDups_append_singleton (entries.filterMap (taken endpoints)) (.url url)
  have hentries : (entries ++ [entry]).filterMap (taken endpoints) =
      entries.filterMap (taken endpoints) ++ [.url url] := by
    rw [List.filterMap_append, List.filterMap_cons_some hsome, List.filterMap_nil]
  rw [← hcollects.locations, ← hentries] at hnext
  rw [Collected.addUrl]
  by_cases hseen : url ∈ collected.seenUrls
  · rw [if_pos hseen]
    rw [if_pos ((hcollects.urls url).mp hseen)] at hnext
    exact ⟨hnext.symm, hcollects.iroh, hcollects.urls⟩
  · rw [if_neg hseen]
    rw [if_neg fun hmem => hseen ((hcollects.urls url).mpr hmem)] at hnext
    refine ⟨hnext.symm, fun id => ?_, fun other => ?_⟩
    · simp [hcollects.iroh]
    · rw [Std.ExtTreeSet.mem_insert, compare_eq_iff_eq, hcollects.urls]
      simp [or_comm, eq_comm]

/-- One location is collected unless it sinks the whole retrieval. -/
theorem Collects.visit (hcollects : Collects endpoints entries collected)
    (hsinks : ¬Sinks endpoints entry) :
    ∃ next, visitLocation endpoints collected entry = .ok next ∧
      Collects endpoints (entries ++ [entry]) next := by
  rw [visitLocation]
  by_cases hendpoint : EndpointId.isEndpointUrl entry.2 = true
  · rw [if_pos hendpoint]
    cases hurl : endpoints.forms.fromUrl entry.2 with
    | error err => exact ⟨_, rfl, hcollects.skip (by simp [taken, hendpoint, hurl]) _⟩
    | ok named =>
        cases named with
        | some id => exact ⟨_, rfl, hcollects.addIroh (by simp [taken, hendpoint, hurl])⟩
        | none =>
            cases hdid : endpointOfDid endpoints entry.1 with
            | ok id =>
                exact ⟨_, rfl, hcollects.addIroh
                  (by simp [taken, hendpoint, hurl, hdid, Except.toOption])⟩
            | error err =>
                exact (hsinks ⟨hendpoint, hurl, by simp [hdid]⟩).elim
  · rw [if_neg hendpoint]
    exact ⟨_, rfl, hcollects.addUrl (by simp [taken, hendpoint])⟩

theorem Collects.run (hcollects : Collects endpoints entries collected)
    (hsinks : ∀ entry ∈ later, ¬Sinks endpoints entry) :
    ∃ final, later.foldlM (visitLocation endpoints) collected = .ok final ∧
      Collects endpoints (entries ++ later) final := by
  induction later generalizing entries collected with
  | nil => exact ⟨collected, rfl, by rwa [List.append_nil]⟩
  | cons entry later ih =>
      obtain ⟨next, hnext, hcollectsNext⟩ := hcollects.visit (hsinks entry List.mem_cons_self)
      obtain ⟨final, hfinal, hcollectsFinal⟩ :=
        ih hcollectsNext fun other hother => hsinks other (List.mem_cons_of_mem _ hother)
      rw [List.append_assoc] at hcollectsFinal
      refine ⟨final, ?_, hcollectsFinal⟩
      rw [List.foldlM_cons, hnext]
      exact hfinal

theorem visitLocation_of_sinks (hsinks : Sinks endpoints entry) (collected : Collected) :
    ∃ err, visitLocation endpoints collected entry = .error err := by
  obtain ⟨hendpoint, hurl, hdid⟩ := hsinks
  simp only [visitLocation, hendpoint, if_true, hurl]
  cases hendpointOf : endpointOfDid endpoints entry.1 with
  | ok id => exact absurd hendpointOf (hdid id)
  | error err => exact ⟨err, rfl⟩

/-- One entry sinks the loop, whatever comes before and after it. -/
theorem foldlM_visitLocation_of_sinks (hentry : entry ∈ later) (hsinks : Sinks endpoints entry)
    (collected : Collected) :
    ∃ err, later.foldlM (visitLocation endpoints) collected = .error err := by
  induction later generalizing collected with
  | nil => cases hentry
  | cons first later ih =>
      rw [List.foldlM_cons]
      cases hnext : visitLocation endpoints collected first with
      | error err => exact ⟨err, rfl⟩
      | ok next =>
          rcases List.mem_cons.mp hentry with rfl | hlater
          · obtain ⟨err, herr⟩ := visitLocation_of_sinks hsinks collected
            rw [herr] at hnext
            cases hnext
          · exact ih hlater next

theorem artifactLocations_of_not_sinks {artifacts : List Artifact}
    (hsinks : ∀ entry ∈ contributed artifacts, ¬Sinks endpoints entry) :
    artifactLocations endpoints artifacts =
      .ok ((contributed artifacts).filterMap (taken endpoints)).eraseDups := by
  have hempty : Collects endpoints [] .empty :=
    ⟨rfl, fun id => by simp [Collected.empty], fun url => by simp [Collected.empty]⟩
  obtain ⟨final, hfinal, hcollects⟩ := hempty.run hsinks
  rw [artifactLocations, hfinal]
  exact congrArg Except.ok hcollects.locations

theorem artifactLocations_of_sinks {artifacts : List Artifact}
    (hentry : entry ∈ contributed artifacts) (hsinks : Sinks endpoints entry) :
    ∃ err, artifactLocations endpoints artifacts = .error err := by
  obtain ⟨err, herr⟩ := foldlM_visitLocation_of_sinks hentry hsinks .empty
  exact ⟨err, by rw [artifactLocations, herr]; rfl⟩

/-! ## What the locations resolve to -/

variable (endpoints) in
/-- The endpoint that a location names, or the plain URL it is.  Neither a location that
names no endpoint nor a URL of the old scheme resolves. -/
def resolve (entry : Did × Url) : Option FetchLocation :=
  if EndpointId.isEndpointUrl entry.2 then
    match endpoints.forms.fromUrl entry.2 with
    | .ok named =>
        (named <|> (endpointOfDid endpoints entry.1).toOption).map .iroh
    | .error _ => none
  else if EndpointId.isLegacyEndpointUrl entry.2 then none
  else some (.url entry.2)

theorem resolve_eq_taken (hlegacy : EndpointId.isLegacyEndpointUrl entry.2 = false) :
    resolve endpoints entry = taken endpoints entry := by
  rw [resolve, taken]
  by_cases hendpoint : EndpointId.isEndpointUrl entry.2 = true
  · rw [if_pos hendpoint, if_pos hendpoint]
    cases endpoints.forms.fromUrl entry.2 with
    | error err => rfl
    | ok named => cases named <;> rfl
  · rw [if_neg hendpoint, if_neg hendpoint, hlegacy, if_neg Bool.false_ne_true]

theorem isEndpointUrl_of_legacy {url : Url} (hlegacy : EndpointId.isLegacyEndpointUrl url = true) :
    EndpointId.isEndpointUrl url = false := by
  rw [EndpointId.isLegacyEndpointUrl, beq_iff_eq] at hlegacy
  rw [EndpointId.isEndpointUrl, hlegacy]
  decide

/-- A legacy URL is taken as a plain one. -/
theorem taken_of_legacy (hlegacy : EndpointId.isLegacyEndpointUrl entry.2 = true) :
    taken endpoints entry = some (.url entry.2) := by
  rw [taken, isEndpointUrl_of_legacy hlegacy, if_neg Bool.false_ne_true]

theorem resolve_ne_legacy {url : Url} (hlegacy : EndpointId.isLegacyEndpointUrl url = true) :
    resolve endpoints entry ≠ some (.url url) := by
  rw [resolve]
  split
  · split <;> simp
  · split
    · simp
    · intro hurl
      injection hurl with hurl
      injection hurl with hurl
      exact absurd (hurl ▸ hlegacy) ‹_›

/-- The list holds what the locations resolve to, once each and in order, exactly if no
location is a legacy URL or the bare URL of a user whose key is no endpoint. -/
theorem artifact_locations_resolve_iff (artifacts : List Artifact) :
    artifactLocations endpoints artifacts =
        .ok ((contributed artifacts).filterMap (resolve endpoints)).eraseDups ↔
      ∀ entry ∈ contributed artifacts,
        EndpointId.isLegacyEndpointUrl entry.2 = false ∧ ¬Sinks endpoints entry := by
  constructor
  · intro hlist entry hentry
    have hsinks : ∀ other ∈ contributed artifacts, ¬Sinks endpoints other := by
      intro other hother hsinks
      obtain ⟨err, herr⟩ := artifactLocations_of_sinks hother hsinks
      rw [herr] at hlist
      cases hlist
    refine ⟨?_, hsinks entry hentry⟩
    rw [artifactLocations_of_not_sinks hsinks] at hlist
    have hlists := Except.ok.inj hlist
    cases hlegacy : EndpointId.isLegacyEndpointUrl entry.2 with
    | false => rfl
    | true =>
        have htaken : FetchLocation.url entry.2 ∈
            ((contributed artifacts).filterMap (taken endpoints)).eraseDups :=
          List.mem_eraseDups.mpr (List.mem_filterMap.mpr ⟨entry, hentry, taken_of_legacy hlegacy⟩)
        rw [hlists, List.mem_eraseDups, List.mem_filterMap] at htaken
        obtain ⟨other, -, hother⟩ := htaken
        exact absurd hother (resolve_ne_legacy hlegacy)
  · intro hgood
    rw [artifactLocations_of_not_sinks fun entry hentry => (hgood entry hentry).2]
    congr 2
    exact List.filterMap_congr fun entry hentry => (resolve_eq_taken (hgood entry hentry).1).symm

/-- A key that is no point of the curve, and a legacy URL. -/
theorem unresolved_location_spoils_retrieval :
    let user : Did := .filled 32 1
    let stranger : Did := .filled 32 2
    let mirror : Url := ⟨"https://example.com/app", by decide⟩
    let endpoints : Endpoints :=
      ⟨.sample (.filled 32 3) "ambqgaydambqgaydambqgaydambqgaydambqgaydambqgaydambq"
          (by decide) (by decide),
        fun key => if key = stranger then .error "signature error" else .ok key,
        Url.serialization⟩
    let located := fun entries : List (Did × BTreeSet Url) =>
      [{ Artifact.register user "app" with locations := BTreeMap.collect entries }]
    artifactLocations endpoints
        (located [(user, BTreeSet.collect [mirror]),
          (stranger, BTreeSet.collect [⟨"radiroh://", by decide⟩])]) =
      .error (.key "invalid iroh public key from DID: signature error") ∧
    artifactLocations endpoints
        (located [(user, BTreeSet.collect [⟨"iroh://ambq", by decide⟩])]) =
      .ok [.url ⟨"iroh://ambq", by decide⟩] := by
  intro user stranger mirror endpoints located
  have hsunk : contributed (located [(user, BTreeSet.collect [mirror]),
      (stranger, BTreeSet.collect [⟨"radiroh://", by decide⟩])]) =
        [(user, mirror), (stranger, ⟨"radiroh://", by decide⟩)] := rfl
  have hlegacy : contributed (located [(user, BTreeSet.collect [⟨"iroh://ambq", by decide⟩])]) =
      [(user, ⟨"iroh://ambq", by decide⟩)] := rfl
  have hmirror : EndpointId.isEndpointUrl mirror = false := by decide
  have hbare : EndpointId.isEndpointUrl ⟨"radiroh://", by decide⟩ = true := by decide
  have hhost : endpoints.forms.fromUrl ⟨"radiroh://", by decide⟩ = .ok none := by
    decide +kernel
  have hplain : EndpointId.isEndpointUrl ⟨"iroh://ambq", by decide⟩ = false := by decide
  constructor
  · rw [artifactLocations, hsunk]
    simp only [List.foldlM_cons, visitLocation, hmirror, hbare, hhost]
    rfl
  · rw [artifactLocations, hlegacy]
    simp only [List.foldlM_cons, visitLocation, hplain]
    rfl

end Locations

end RadicleArtifact.Cli
