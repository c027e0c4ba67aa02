import RadicleArtifact.Cli.Reconcile
import RadicleArtifact.Library.Transition
import RadicleArtifact.Node.Tags

/-!
# Drift between tags and locations

Seeding sets a tag in the node and adds a location to a release; the two are separate
writes, and the release of the tag need not be the one that holds the location.  This
module runs the commands that write them and says when a location is left without any
tag for its content.
-/

namespace RadicleArtifact.Cli

open RadicleArtifact.Core
open RadicleArtifact.Library
open RadicleArtifact.Cob
open RadicleArtifact.Releases
open RadicleArtifact.Node

/-- What stays the same in a run: the repository, our keys, and the codecs. -/
structure Setting where
  forms : EndpointForms
  asSecs : Timestamp → ℕ
  rid : RepoId
  endpointId : EndpointId
  localDid : Did

/-- The releases of the repository, and the node's seeded tags. -/
structure Seeding where
  releases : Listing
  seeded : Seeded

/-- A command, with the answers it depends on. -/
inductive Operation where
  /-- `seed`, with `--release` or `--no-location` -/
  | seed (releaseOverride : Option ReleaseId) (cid : Cid) (hash : Hash) (noLocation : Bool)
  /-- `fetch --seed`, with the commit of the revision -/
  | fetchSeed (oid : Option Oid) (cid : Cid) (hash : Hash)
  /-- `unseed`, with the release the user picks -/
  | unseed (releaseFilter : Option ReleaseId) (cid : Cid)
  /-- `reconcile`, with the order the seeded set is iterated in -/
  | reconcile (order : List Cid) (removeOrphaned : Finset Cid) (removeOrphanedSelf : Bool)

/-- The most recently created of the matching releases. -/
def mostRecent (matching : List (ReleaseId × Release)) : Option (ReleaseId × Release) :=
  maxByKey (fun entry => entry.2.timestamp) matching

/-- The release to seed: `--release`, else the most recent matching one. -/
def seedTarget (releases : Listing) (releaseOverride : Option ReleaseId) (cid : Cid) :
    Option ReleaseId :=
  match releaseOverride with
  | some id => some id
  | none => (mostRecent (releases.findByCid cid)).map Prod.fst

/-- The release a retrieval seeds under: one of the commit, else the most recent. -/
def primaryRelease (releases : Listing) (oid : Option Oid) (cid : Cid) : Option ReleaseId :=
  let matching := releases.findByCid cid
  match oid with
  | some oid =>
      if matching.any fun entry => entry.2.oid = oid then
        ((matching.find? fun entry => entry.2.oid = oid).or matching.head?).map Prod.fst
      else none
  | none => (mostRecent matching).map Prod.fst

namespace Seeding

variable (setting : Setting) (world : Seeding)

/-- `add_location`: the URL of the endpoint, for a release that exists. -/
def addLocation (id : ReleaseId) (cid : Cid) : Option Seeding := do
  let _ ← world.releases.get? id
  return { world with
    releases := world.releases.write setting.localDid id
      (.addLocation cid (setting.forms.toUrl setting.endpointId)) }

/-- Set the tag of a release. -/
def tag (id : ReleaseId) (cid : Cid) (hash : Hash) : Option Seeding := do
  let seeded ← (world.seeded.tag (setting.rid, id, cid) hash).toOption
  return { world with seeded := seeded }

/-- Remove every endpoint URL of ours for the content from one release. -/
def retract (cid : Cid) (releases : Listing) (id : ReleaseId) : Listing :=
  releases.removeAll setting.localDid
    (((releases.urlsOf id cid setting.localDid).filter EndpointId.isEndpointUrl).map
      fun url => (id, cid, url))

/-- The content seeded in the repository. -/
def seededCids : List Cid :=
  ((world.seeded.keys.filter fun triple => triple.1 = setting.rid).map fun triple =>
    triple.2.2).dedup

/-- A command that succeeds. -/
def step : Operation → Option Seeding
  | .seed releaseOverride cid hash noLocation => do
      let id ← seedTarget world.releases releaseOverride cid
      let tagged ← world.tag setting id cid hash
      if noLocation then return tagged
      tagged.addLocation setting id cid
  | .fetchSeed oid cid hash => do
      let id ← primaryRelease world.releases oid cid
      let tagged ← world.tag setting id cid hash
      tagged.addLocation setting id cid
  | .unseed (some id) cid => some
      { releases := retract setting cid world.releases id
        seeded := (world.seeded.untag (setting.rid, id, cid)).2 }
  | .unseed none cid => some
      { releases := ((world.releases.findByCid cid).map Prod.fst).foldl (retract setting cid)
          world.releases
        seeded := (world.seeded.untagAll setting.rid cid).2 }
  | .reconcile order removeOrphaned removeOrphanedSelf =>
      if order.Perm (world.seededCids setting) then some
        { world with
          releases := (reconcileOne
            ⟨setting.endpointId, setting.localDid, removeOrphaned, removeOrphanedSelf⟩
            setting.rid setting.forms setting.asSecs order world.releases).2 }
      else none

/-- Some release of the repository has a seeded tag for the content. -/
def Seeds (cid : Cid) : Prop :=
  ∃ id, (setting.rid, id, cid) ∈ world.seeded.keys

/-- Our location for the content at the current endpoint. -/
def Advertises (id : ReleaseId) (cid : Cid) : Prop :=
  ∃ url, world.releases.Located id cid setting.localDid url ∧
    setting.forms.matchesUrl setting.endpointId url = true

/-- No location of ours at the current endpoint is for content that is not seeded. -/
def NoOrphans : Prop :=
  ∀ id cid, world.Advertises setting id cid → world.Seeds setting cid

/-- An unseed of one release leaves a tag for the content, or finds it advertised in
no other release. -/
def LeavesNoOrphan : Operation → Prop
  | .unseed (some id) cid =>
      (∃ other ≠ id, (setting.rid, other, cid) ∈ world.seeded.keys) ∨
        ∀ other, world.Advertises setting other cid → other = id
  | _ => True

/-! ## What a step changes -/

variable {setting world} {next : Seeding}

theorem located_retract {releases : Listing} {id wantedId : ReleaseId} {cid wanted : Cid}
    {user : Did} {url : Url} :
    (retract setting cid releases id).Located wantedId wanted user url ↔
      releases.Located wantedId wanted user url ∧
        ¬ (wantedId = id ∧ wanted = cid ∧ user = setting.localDid ∧
          EndpointId.isEndpointUrl url = true) := by
  rw [retract, Listing.located_removeAll]
  refine and_congr_right fun hlocated => not_congr ?_
  simp only [List.mem_map, List.mem_filter, Listing.mem_urlsOf, Prod.mk.injEq]
  constructor
  · rintro ⟨⟨found, ⟨-, hscheme⟩, rfl, rfl, rfl⟩, huser⟩
    exact ⟨rfl, rfl, huser, hscheme⟩
  · rintro ⟨rfl, rfl, rfl, hscheme⟩
    exact ⟨⟨url, ⟨hlocated, hscheme⟩, rfl, rfl, rfl⟩, rfl⟩

theorem located_foldl_retract {releases : Listing} {ids : List ReleaseId}
    {wantedId : ReleaseId} {cid wanted : Cid} {user : Did} {url : Url} :
    (ids.foldl (retract setting cid) releases).Located wantedId wanted user url ↔
      releases.Located wantedId wanted user url ∧
        ¬ (wantedId ∈ ids ∧ wanted = cid ∧ user = setting.localDid ∧
          EndpointId.isEndpointUrl url = true) := by
  induction ids generalizing releases with
  | nil => simp
  | cons id ids ih =>
      rw [List.foldl_cons, ih, located_retract, and_assoc, List.mem_cons, or_and_right, not_or]

/-- Retracting from a release removes what it advertises. -/
theorem advertises_retract {id wantedId : ReleaseId} {cid wanted : Cid} {seeded : Seeded} :
    Advertises setting ⟨retract setting cid world.releases id, seeded⟩ wantedId wanted ↔
      world.Advertises setting wantedId wanted ∧ ¬ (wantedId = id ∧ wanted = cid) := by
  simp only [Advertises, located_retract]
  constructor
  · rintro ⟨url, ⟨hlocated, hkept⟩, hmatches⟩
    exact ⟨⟨url, hlocated, hmatches⟩, fun hown => hkept ⟨hown.1, hown.2, trivial,
      EndpointForms.isEndpointUrl_of_matchesUrl hmatches⟩⟩
  · rintro ⟨⟨url, hlocated, hmatches⟩, hother⟩
    exact ⟨url, ⟨hlocated, fun hremoved => hother ⟨hremoved.1, hremoved.2.1⟩⟩, hmatches⟩

theorem advertises_foldl_retract {ids : List ReleaseId} {wantedId : ReleaseId}
    {cid wanted : Cid} {seeded : Seeded} :
    Advertises setting ⟨ids.foldl (retract setting cid) world.releases, seeded⟩ wantedId wanted ↔
      world.Advertises setting wantedId wanted ∧ ¬ (wantedId ∈ ids ∧ wanted = cid) := by
  simp only [Advertises, located_foldl_retract]
  constructor
  · rintro ⟨url, ⟨hlocated, hkept⟩, hmatches⟩
    exact ⟨⟨url, hlocated, hmatches⟩, fun hown => hkept ⟨hown.1, hown.2, trivial,
      EndpointForms.isEndpointUrl_of_matchesUrl hmatches⟩⟩
  · rintro ⟨⟨url, hlocated, hmatches⟩, hother⟩
    exact ⟨url, ⟨hlocated, fun hremoved => hother ⟨hremoved.1, hremoved.2.1⟩⟩, hmatches⟩

theorem eq_of_tag_eq_some {id : ReleaseId} {cid : Cid} {hash : Hash}
    (htag : world.tag setting id cid hash = some next) :
    ∃ value, next = { world with seeded := world.seeded.insert (setting.rid, id, cid) value } := by
  rw [tag, Seeded.tag] at htag
  cases hvalue : tagValue cid hash with
  | error err => simp [hvalue, Except.map, Except.toOption] at htag
  | ok value =>
      refine ⟨value, ?_⟩
      simpa [hvalue, Except.map, Except.toOption, eq_comm] using htag

/-- Setting a tag seeds the content and orphans nothing. -/
theorem NoOrphans.tag (hworld : world.NoOrphans setting) {id : ReleaseId} {cid : Cid}
    {hash : Hash} (htag : world.tag setting id cid hash = some next) :
    next.NoOrphans setting ∧ next.Seeds setting cid := by
  obtain ⟨value, rfl⟩ := eq_of_tag_eq_some htag
  constructor
  · intro wantedId wanted hadvertised
    obtain ⟨other, hother⟩ := hworld wantedId wanted hadvertised
    exact ⟨other, IndexMap.mem_keys_insert.mpr (.inr hother)⟩
  · exact ⟨id, IndexMap.mem_keys_insert.mpr (.inl rfl)⟩

/-- Adding a location for seeded content orphans nothing. -/
theorem NoOrphans.addLocation (hworld : world.NoOrphans setting) {id : ReleaseId} {cid : Cid}
    (hseeded : world.Seeds setting cid)
    (hadd : world.addLocation setting id cid = some next) : next.NoOrphans setting := by
  obtain ⟨release, -, hnext⟩ := Option.bind_eq_some_iff.mp hadd
  obtain rfl := Option.some.inj hnext
  rintro wantedId wanted ⟨url, hlocated, hmatches⟩
  rcases Listing.located_addLocation.mp hlocated with hold | ⟨-, -, rfl, -⟩
  · exact hworld wantedId wanted ⟨url, hold, hmatches⟩
  · exact hseeded

theorem mem_seededCids {cid : Cid} :
    cid ∈ world.seededCids setting ↔ world.Seeds setting cid := by
  simp only [seededCids, Seeds, List.mem_dedup, List.mem_map, List.mem_filter,
    decide_eq_true_eq]
  constructor
  · rintro ⟨⟨rid, id, cid⟩, ⟨hkey, rfl⟩, rfl⟩
    exact ⟨id, hkey⟩
  · rintro ⟨id, hkey⟩
    exact ⟨(setting.rid, id, cid), ⟨hkey, rfl⟩, rfl⟩

/-- Reconciling adds locations for seeded content only. -/
theorem NoOrphans.reconcile (hworld : world.NoOrphans setting) {ctx : ReconcileCtx}
    {order : List Cid} (horder : order.Perm (world.seededCids setting)) :
    NoOrphans setting { world with
      releases := (reconcileOne ctx setting.rid setting.forms setting.asSecs order
        world.releases).2 } := by
  rintro wantedId wanted ⟨url, hlocated, hmatches⟩
  rcases (located_reconcileOne.mp hlocated).1 with hold | ⟨-, -, hseeded, -⟩
  · exact hworld wantedId wanted ⟨url, hold, hmatches⟩
  · exact mem_seededCids.mp (horder.mem_iff.mp hseeded)

/-- Unseeding one release orphans nothing exactly when the content stays seeded, or was
advertised in no other release. -/
theorem noOrphans_unseed_iff (hworld : world.NoOrphans setting) {id : ReleaseId} {cid : Cid} :
    NoOrphans setting
        { releases := retract setting cid world.releases id
          seeded := (world.seeded.untag (setting.rid, id, cid)).2 } ↔
      world.LeavesNoOrphan setting (.unseed (some id) cid) := by
  have htag : ∀ other wanted,
      (setting.rid, other, wanted) ∈ (world.seeded.untag (setting.rid, id, cid)).2.keys ↔
        ¬ (other = id ∧ wanted = cid) ∧ (setting.rid, other, wanted) ∈ world.seeded.keys := by
    intro other wanted
    rw [Seeded.untag, IndexMap.mem_keys_shiftRemove]
    simp
  constructor
  · intro hnext
    by_cases hadvertised : ∀ other, world.Advertises setting other cid → other = id
    · exact .inr hadvertised
    · push Not at hadvertised
      obtain ⟨other, hother, hne⟩ := hadvertised
      obtain ⟨tagged, htagged⟩ :=
        hnext other cid (advertises_retract.mpr ⟨hother, fun hown => hne hown.1⟩)
      obtain ⟨hkept, hmem⟩ := (htag tagged cid).mp htagged
      exact .inl ⟨tagged, fun heq => hkept ⟨heq, rfl⟩, hmem⟩
  · intro hleaves wantedId wanted hadvertised
    obtain ⟨hold, hother⟩ := advertises_retract.mp hadvertised
    by_cases hwanted : wanted = cid
    · subst hwanted
      rcases hleaves with ⟨tagged, hne, hmem⟩ | honly
      · exact ⟨tagged, (htag tagged wanted).mpr ⟨fun hown => hne hown.1, hmem⟩⟩
      · exact absurd ⟨honly wantedId hold, rfl⟩ hother
    · obtain ⟨tagged, htagged⟩ := hworld wantedId wanted hold
      exact ⟨tagged, (htag tagged wanted).mpr ⟨fun hown => hwanted hown.2, htagged⟩⟩

/-- Unseeding every release removes every location with the tags. -/
theorem noOrphans_unseedAll (hworld : world.NoOrphans setting) (cid : Cid) :
    NoOrphans setting
      { releases := ((world.releases.findByCid cid).map Prod.fst).foldl (retract setting cid)
          world.releases
        seeded := (world.seeded.untagAll setting.rid cid).2 } := by
  intro wantedId wanted hadvertised
  obtain ⟨hold, hother⟩ := advertises_foldl_retract.mp hadvertised
  obtain ⟨url, hlocated, -⟩ := id hold
  have hwanted : wanted ≠ cid := by
    rintro rfl
    exact hother ⟨Listing.registered_iff.mp hlocated.registered, rfl⟩
  obtain ⟨tagged, htagged⟩ := hworld wantedId wanted hold
  refine ⟨tagged, ?_⟩
  rw [Seeded.untagAll, IndexMap.mem_keys_retain_not]
  exact ⟨fun hseeds => hwanted hseeds.2, htagged⟩

theorem noOrphans_step_iff (hworld : world.NoOrphans setting) (operation : Operation)
    (hstep : world.step setting operation = some next) :
    next.NoOrphans setting ↔ world.LeavesNoOrphan setting operation := by
  cases operation with
  | seed releaseOverride cid hash noLocation =>
      obtain ⟨id, -, hrest⟩ := Option.bind_eq_some_iff.mp hstep
      obtain ⟨tagged, htagged, hadd⟩ := Option.bind_eq_some_iff.mp hrest
      obtain ⟨hclean, hseeded⟩ := hworld.tag htagged
      refine iff_of_true ?_ trivial
      cases noLocation with
      | true => exact Option.some.inj hadd ▸ hclean
      | false => exact hclean.addLocation hseeded hadd
  | fetchSeed oid cid hash =>
      obtain ⟨id, -, hrest⟩ := Option.bind_eq_some_iff.mp hstep
      obtain ⟨tagged, htagged, hadd⟩ := Option.bind_eq_some_iff.mp hrest
      obtain ⟨hclean, hseeded⟩ := hworld.tag htagged
      exact iff_of_true (hclean.addLocation hseeded hadd) trivial
  | unseed releaseFilter cid =>
      cases releaseFilter with
      | some id => exact Option.some.inj hstep ▸ noOrphans_unseed_iff hworld
      | none =>
          exact iff_of_true (Option.some.inj hstep ▸ noOrphans_unseedAll hworld cid) trivial
  | reconcile order removeOrphaned removeOrphanedSelf =>
      rw [step] at hstep
      split at hstep
      · rename_i horder
        exact iff_of_true (Option.some.inj hstep ▸ hworld.reconcile horder) trivial
      · contradiction

/-- From releases without a location of ours at the current endpoint, no location of
ours is orphaned as long as every unseed of one release leaves a tag for its content or
finds it advertised in no other release; one that does not leaves an orphan. -/
theorem operations_leave_no_orphan {start : Seeding}
    (hlocations : ∀ id cid, ¬ start.Advertises setting id cid) :
    ∀ world, Reachable (fun world operation => world.step setting operation)
        (fun world operation => world.LeavesNoOrphan setting operation) start world →
      world.NoOrphans setting ∧
        ∀ operation next, world.step setting operation = some next →
          (next.NoOrphans setting ↔ world.LeavesNoOrphan setting operation) := by
  intro world hreachable
  have hworld : world.NoOrphans setting :=
    hreachable.invariant (fun id cid hadvertised => absurd hadvertised (hlocations id cid))
      fun state operation next hstate hleaves hstep =>
        (noOrphans_step_iff hstate _ hstep).mpr hleaves
  exact ⟨hworld, fun operation next hstep => noOrphans_step_iff hworld operation hstep⟩

/-- A location needs a URL of some artifact. -/
theorem not_advertises_of_no_urls (hurls : ∀ id cid artifact,
    world.releases.artifact id cid = some artifact → artifact.locations = ∅) (id : ReleaseId)
    (cid : Cid) : ¬ world.Advertises setting id cid := by
  rintro ⟨url, ⟨artifact, hartifact, hlocation⟩, -⟩
  simp [Artifact.hasLocation, Artifact.locationsOf, hurls id cid artifact hartifact] at hlocation

/-- Where every release has registered the same artifact and nothing else, nothing is
advertised. -/
theorem not_advertises_of_registered (did : Did) (cid : Cid) (name : String)
    (hregistered : ∀ entry ∈ world.releases.entries,
      entry.2.artifacts.entries = [(cid, Artifact.register did name)]) :
    ∀ id wanted, ¬ world.Advertises setting id wanted := by
  refine not_advertises_of_no_urls fun id wanted artifact hartifact => ?_
  obtain ⟨found, hfound, hartifact⟩ := Listing.artifact_eq_some_iff.mp hartifact
  have hmem := IndexMap.get?_eq_some_iff_mem.mp hartifact
  have hentries := hregistered _ hfound
  rw [hentries] at hmem
  rw [(Prod.mk.inj (List.mem_singleton.mp hmem)).2]
  rfl

end Seeding

/-- Two releases hold one artifact, and both are seeded before the older one is unseeded. -/
theorem operations_leave_no_orphan_in_two_releases :
    let did : Did := .filled 32 3
    let cid := blake3HashToCid (.filled 32 7) .blob
    let forms := EndpointForms.sample (.filled 32 3)
      "ambqgaydambqgaydambqgaydambqgaydambqgaydambqgaydambq" (by decide) (by decide)
    let setting : Setting := ⟨forms, fun timestamp => timestamp.val / 1000, .filled 20 9,
      .filled 32 3, did⟩
    let older := (Release.new (.filled 20 5) none did 1000).action did
      (.registerArtifact cid "app")
    let newer := (Release.new (.filled 20 6) none did 2000).action did
      (.registerArtifact cid "app")
    let start : Seeding := ⟨.collect [(.filled 20 1, older), (.filled 20 2, newer)], ∅⟩
    ∃ world, Reachable (fun world operation => world.step setting operation)
        (fun world operation => world.LeavesNoOrphan setting operation) start world ∧
      world.seeded.keys = [(.filled 20 9, .filled 20 2, cid)] ∧ world.NoOrphans setting := by
  intro did cid forms setting older newer start
  have hlocations : ∀ id cid, ¬ start.Advertises setting id cid := by
    refine Seeding.not_advertises_of_registered did cid "app" fun entry hentry => ?_
    rcases List.mem_pair.mp hentry with rfl | rfl <;> rfl
  have hstart : Reachable (fun world operation => Seeding.step setting world operation)
      (fun world operation => Seeding.LeavesNoOrphan setting world operation) start start :=
    .start
  have hseeded := hstart.step (.seed (some (.filled 20 1)) cid (.filled 32 7) true) _
    (by trivial) rfl
  have hboth := hseeded.step (.seed none cid (.filled 32 7) false) _ (by trivial) rfl
  have hreconciled := hboth.step (.reconcile [cid] ∅ false) _ (by trivial) rfl
  have hunseeded := hreconciled.step (.unseed (some (.filled 20 1)) cid) _ (by
    rw [Seeding.LeavesNoOrphan]
    exact .inl ⟨.filled 20 2, by decide, List.mem_cons_of_mem _ List.mem_cons_self⟩) rfl
  exact ⟨_, hunseeded, rfl, (Seeding.operations_leave_no_orphan hlocations _ hunseeded).1⟩

/-- Two releases hold one artifact.  The older one is seeded without a location, so
reconciling adds the location to the newer one; unseeding the older one removes the only
tag and leaves that location. -/
theorem unseeded_release_leaves_location :
    let did : Did := .filled 32 3
    let cid := blake3HashToCid (.filled 32 7) .blob
    let forms := EndpointForms.sample (.filled 32 3)
      "ambqgaydambqgaydambqgaydambqgaydambqgaydambqgaydambq" (by decide) (by decide)
    let setting : Setting := ⟨forms, fun timestamp => timestamp.val / 1000, .filled 20 9,
      .filled 32 3, did⟩
    let older := (Release.new (.filled 20 5) none did 1000).action did
      (.registerArtifact cid "app")
    let newer := (Release.new (.filled 20 6) none did 2000).action did
      (.registerArtifact cid "app")
    let start : Seeding := ⟨.collect [(.filled 20 1, older), (.filled 20 2, newer)], ∅⟩
    (∀ id cid, ¬ start.Advertises setting id cid) ∧
      ¬ ∀ world, Reachable (fun world operation => world.step setting operation) anyStep start
        world → world.NoOrphans setting := by
  intro did cid forms setting older newer start
  have hlocations : ∀ id cid, ¬ start.Advertises setting id cid := by
    refine Seeding.not_advertises_of_registered did cid "app" fun entry hentry => ?_
    rcases List.mem_pair.mp hentry with rfl | rfl <;> rfl
  refine ⟨hlocations, fun hclean => ?_⟩
  let seeded : Seeding :=
    ⟨start.releases, (∅ : Seeded).insert (.filled 20 9, .filled 20 1, cid) ⟨.filled 32 7, .raw⟩⟩
  have hstart : Reachable (fun world operation => Seeding.step setting world operation) anyStep
      start start := .start
  have hseeded := hstart.step (.seed (some (.filled 20 1)) cid (.filled 32 7) true) seeded
    trivial rfl
  let reconciled : Seeding := { seeded with
    releases := (reconcileOne ⟨.filled 32 3, did, ∅, false⟩ (.filled 20 9) forms setting.asSecs
      [cid] start.releases).2 }
  have hreconciled := hseeded.step (.reconcile [cid] ∅ false) reconciled trivial rfl
  have hunseeded := hreconciled.step (.unseed (some (.filled 20 1)) cid) _ trivial rfl
  have hadvertised : reconciled.Advertises setting (.filled 20 2) cid := by
    refine ⟨forms.toUrl (.filled 32 3), located_reconcileOne.mpr
      ⟨.inr ⟨rfl, rfl, List.mem_cons_self, ?_, by decide⟩, ?_, ?_⟩,
      EndpointForms.matchesUrl_toUrl _⟩
    · rintro ⟨id, hadvertised⟩
      exact hlocations id cid hadvertised
    · exact fun hremoved => hremoved.2.2.2.1 List.mem_cons_self
    · exact fun hremoved => absurd hremoved.2.2.2.2 (by decide)
  rcases (Seeding.noOrphans_step_iff (hclean _ hreconciled)
    (.unseed (some (.filled 20 1)) cid) rfl).mp (hclean _ hunseeded) with
      ⟨other, hne, htagged⟩ | honly
  · have hkey : (.filled 20 9, other, cid) ∈
        [((.filled 20 9, .filled 20 1, cid) : Triple)] := htagged
    exact hne (Prod.mk.inj (Prod.mk.inj (List.mem_singleton.mp hkey)).2).1
  · exact absurd (honly (.filled 20 2) hadvertised) (by decide)

end RadicleArtifact.Cli
