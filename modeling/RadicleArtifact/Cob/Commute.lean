import RadicleArtifact.Cob.Reducer
import RadicleArtifact.Library.Interleaving

/-!
# Actions of different users commute

Peers put concurrent operations in different orders.  An action on a registered artifact
changes the artifact one component at a time, each in the slice of its user, so the order
of two users' actions does not show, except in the write order of one metadata key.
-/

namespace RadicleArtifact.Cob

open RadicleArtifact.Core
open RadicleArtifact.Library

namespace Action

/-! ## What an action makes of each component -/

def onName (author user : Did) (name : String) : Action → String
  | .registerArtifact _ renamed => if author = user then renamed else name
  | _ => name

def onLocations (user : Did) (locations : BTreeMap Did (BTreeSet Url)) :
    Action → BTreeMap Did (BTreeSet Url)
  | .addLocation _ location =>
      locations.alter user fun urls => some ((urls.getD ∅).insert location)
  | .removeLocation _ location =>
      locations.alter user fun urls =>
        (urls.map (·.erase location)).filter fun urls => !urls.isEmpty
  | _ => locations

def onRedactions (user : Did) (redactions : BTreeMap Did String) : Action → BTreeMap Did String
  | .redact _ reason => redactions.insert user reason
  | _ => redactions

def onAttestations (user : Did) (canAttest : Bool) (attestations : BTreeSet Did) :
    Action → BTreeSet Did
  | .attest _ => if canAttest then attestations.insert user else attestations
  | .redact _ _ => attestations.erase user
  | _ => attestations

def onMetadata (user : Did) (metadata : BTreeMap String (IndexMap Did MetadataWrite)) :
    Action → BTreeMap String (IndexMap Did MetadataWrite)
  | .setMetadata _ key value =>
      metadata.alter key fun writes =>
        some (((writes.getD ∅).shiftRemove user).insert user (.set value))
  | .removeMetadata _ key =>
      metadata.alter key fun writes =>
        some (((writes.getD ∅).shiftRemove user).insert user .removed)
  | _ => metadata

/-- The metadata key an action writes. -/
def metadataKey? : Action → Option String
  | .setMetadata _ key _ | .removeMetadata _ key => some key
  | _ => none

/-- Both actions write metadata under one key of one artifact. -/
def SameMetadata (left right : Action) : Prop :=
  left.cid? = right.cid? ∧ left.metadataKey?.isSome ∧ left.metadataKey? = right.metadataKey?

end Action

namespace Artifact

theorem apply_eq (artifact : Artifact) (user : Did) (action : Action) :
    artifact.apply user action =
      { author := artifact.author
        name := action.onName artifact.author user artifact.name
        locations := action.onLocations user artifact.locations
        attestations := action.onAttestations user (artifact.canAttest user) artifact.attestations
        redactions := action.onRedactions user artifact.redactions
        metadata := action.onMetadata user artifact.metadata } := by
  cases action with
  | registerArtifact cid name =>
      rw [apply, Action.onName]
      split <;> rfl
  | attest cid =>
      rw [apply, attest, Action.onAttestations]
      split <;> rfl
  | _ => rfl

section Components

variable {user other : Did} (husers : user ≠ other) (left right : Action)

include husers

theorem onName_comm (author : Did) (name : String) :
    right.onName author other (left.onName author user name) =
      left.onName author user (right.onName author other name) := by
  cases left <;> cases right <;> simp only [Action.onName]
  rename_i cid renamed later again
  by_cases hauthor : author = user
  · have hother : author ≠ other := hauthor ▸ husers
    rw [if_neg hother, if_neg hother]
  · rw [if_neg hauthor, if_neg hauthor]

theorem onLocations_comm (locations : BTreeMap Did (BTreeSet Url)) :
    right.onLocations other (left.onLocations user locations) =
      left.onLocations user (right.onLocations other locations) := by
  cases left <;> cases right <;> simp only [Action.onLocations]
  all_goals exact BTreeMap.alter_comm locations husers _ _

theorem onRedactions_comm (redactions : BTreeMap Did String) :
    right.onRedactions other (left.onRedactions user redactions) =
      left.onRedactions user (right.onRedactions other redactions) := by
  cases left <;> cases right <;> simp only [Action.onRedactions]
  exact BTreeMap.insert_comm redactions husers _ _

theorem onAttestations_comm (canAttest canOther : Bool) (attestations : BTreeSet Did) :
    right.onAttestations other canOther (left.onAttestations user canAttest attestations) =
      left.onAttestations user canAttest (right.onAttestations other canOther attestations) := by
  cases left <;> cases right <;> simp only [Action.onAttestations]
  case attest.attest =>
    cases canAttest <;> cases canOther <;> simp only [if_true, Bool.false_eq_true, if_false]
    exact BTreeSet.insert_comm attestations user other
  case attest.redact =>
    cases canAttest <;> simp only [if_true, Bool.false_eq_true, if_false]
    exact BTreeSet.insert_erase_comm attestations husers
  case redact.attest =>
    cases canOther <;> simp only [if_true, Bool.false_eq_true, if_false]
    exact (BTreeSet.insert_erase_comm attestations husers.symm).symm
  case redact.redact => exact BTreeSet.erase_comm attestations user other

/-- Whether a user can attest is nothing another user's action changes. -/
theorem canAttest_apply_of_ne (artifact : Artifact) :
    (artifact.apply user left).canAttest other = artifact.canAttest other := by
  rw [Bool.eq_iff_iff, canAttest_iff, canAttest_iff, author_apply]
  cases left with
  | redact cid reason => rw [apply, redactionBy_redact, if_neg husers.symm]
  | registerArtifact cid name =>
      rw [read_apply_register (redactionBy · other) fun _ => rfl]
  | attest cid => rw [apply, read_attest (redactionBy · other) fun _ => rfl]
  | _ => rfl

end Components

theorem onMetadata_comm {left right : Action}
    (hkeys : ¬(left.metadataKey?.isSome ∧ left.metadataKey? = right.metadataKey?))
    (user other : Did) (metadata : BTreeMap String (IndexMap Did MetadataWrite)) :
    right.onMetadata other (left.onMetadata user metadata) =
      left.onMetadata user (right.onMetadata other metadata) := by
  cases left <;> cases right <;> simp only [Action.onMetadata]
  all_goals
    refine BTreeMap.alter_comm metadata (fun hsame => hkeys ?_) _ _
    simp [Action.metadataKey?, hsame]

theorem apply_comm (artifact : Artifact) {user other : Did} (husers : user ≠ other)
    {left right : Action}
    (hkeys : ¬(left.metadataKey?.isSome ∧ left.metadataKey? = right.metadataKey?)) :
    (artifact.apply user left).apply other right =
      (artifact.apply other right).apply user left := by
  rw [apply_eq (artifact.apply user left), apply_eq (artifact.apply other right),
    canAttest_apply_of_ne husers, canAttest_apply_of_ne husers.symm, apply_eq, apply_eq]
  simp only [onName_comm husers, onLocations_comm husers, onAttestations_comm husers,
    onRedactions_comm husers, onMetadata_comm hkeys]

end Artifact

namespace Release

/-- The action names an artifact that the release holds. -/
def OnRegistered (release : Release) (action : Action) : Prop :=
  ∃ cid artifact, action.cid? = some cid ∧ release.artifact cid = some artifact

theorem withArtifact_congr {release : Release} {cid : Cid} {artifact : Artifact}
    (hregistered : release.artifact cid = some artifact) {change later : Artifact → Artifact}
    (hchange : change artifact = later artifact) :
    release.withArtifact cid change = release.withArtifact cid later := by
  have hmodify : release.artifacts.modify cid change = release.artifacts.modify cid later := by
    refine IndexMap.modify_congr fun value hvalue => ?_
    rw [Release.artifact, hvalue] at hregistered
    rwa [Option.some.inj hregistered]
  rw [withArtifact, withArtifact, hmodify]

theorem withArtifact_self (release : Release) (cid : Cid) :
    release.withArtifact cid (fun artifact => artifact) = release := by
  have hmodify : release.artifacts.modify cid (fun artifact => artifact) = release.artifacts := by
    apply IndexMap.ext
    rw [IndexMap.entries_modify]
    simp
  rw [withArtifact, hmodify]

/-- An action on a registered artifact changes it in place. -/
theorem action_eq_withArtifact {release : Release} {cid : Cid} {artifact : Artifact}
    (hregistered : release.artifact cid = some artifact) (user : Did) {action : Action}
    (hcid : action.cid? = some cid) :
    release.action user action =
      release.withArtifact cid fun artifact => artifact.apply user action := by
  cases action with
  | create oid tag => cases hcid
  | registerArtifact named name =>
      obtain rfl := Option.some.inj hcid
      rw [Release.action, hregistered]
      by_cases hauthor : artifact.author = user
      · simp only [if_pos hauthor]
        exact withArtifact_congr hregistered (by rw [Artifact.apply, if_pos hauthor])
      · simp only [if_neg hauthor]
        have hkeep : artifact.apply user (.registerArtifact named name) = artifact := by
          rw [Artifact.apply, if_neg hauthor]
        exact (withArtifact_self release named).symm.trans
          (withArtifact_congr hregistered hkeep.symm)
  | addLocation named | removeLocation named | attest named | redact named
  | setMetadata named | removeMetadata named =>
      obtain rfl := Option.some.inj hcid
      rfl

/-- No artifact is ever taken out of a release. -/
theorem onRegistered_action {release : Release} {action : Action}
    (hregistered : release.OnRegistered action) (entry : SignedAction) :
    (release.action entry.user entry.action).OnRegistered action := by
  obtain ⟨cid, artifact, hcid, hartifact⟩ := hregistered
  exact ⟨cid, _, hcid, artifact_action_of_some hartifact entry⟩

/-- Two users' actions on registered artifacts commute. -/
theorem action_comm {release : Release} {user other : Did} (husers : user ≠ other)
    {left right : Action} (hleft : release.OnRegistered left)
    (hright : release.OnRegistered right) (hmetadata : ¬left.SameMetadata right) :
    (release.action user left).action other right =
      (release.action other right).action user left := by
  obtain ⟨cid, artifact, hcid, hartifact⟩ := hleft
  obtain ⟨cid', artifact', hcid', hartifact'⟩ := hright
  have hafter := artifact_action_of_some hartifact' ⟨user, left⟩
  have hbefore := artifact_action_of_some hartifact ⟨other, right⟩
  rw [action_eq_withArtifact hafter other hcid', action_eq_withArtifact hartifact user hcid,
    action_eq_withArtifact hbefore user hcid, action_eq_withArtifact hartifact' other hcid']
  simp only [withArtifact]
  by_cases hsame : cid = cid'
  · subst hsame
    have hkeys : ¬(left.metadataKey?.isSome ∧ left.metadataKey? = right.metadataKey?) :=
      fun hkeys => hmetadata ⟨hcid.trans hcid'.symm, hkeys⟩
    rw [IndexMap.modify_modify, IndexMap.modify_modify]
    simp only [Artifact.apply_comm _ husers hkeys]
  · rw [IndexMap.modify_comm _ hsame]

/-! ## Interleavings -/

/-- The histories hold each user's actions in the same order. -/
abbrev Interleaved (left right : List SignedAction) : Prop :=
  Interleave SignedAction.user left right

/-- Actions on registered artifacts, none of which meets another user's at a metadata key. -/
structure Concurrent (release : Release) (history : List SignedAction) : Prop where
  registered : ∀ entry ∈ history, release.OnRegistered entry.action
  metadata : ∀ left ∈ history, ∀ right ∈ history, left.user ≠ right.user →
    ¬left.action.SameMetadata right.action

theorem commuting_of_concurrent {release : Release} {history : List SignedAction}
    (hconcurrent : release.Concurrent history) :
    Commuting (fun release entry => Release.action release entry.user entry.action)
      SignedAction.user (fun state => ∀ entry ∈ history, state.OnRegistered entry.action)
      {entry | entry ∈ history} where
  preserves _ hstate entry _ other hother := onRegistered_action (hstate other hother) entry
  commute _ hstate left hleft right hright husers :=
    action_comm husers (hstate left hleft) (hstate right hright)
      (hconcurrent.metadata left hleft right hright husers)

theorem actions_commute (release : Release) :
    (∀ user other left right, user ≠ other → release.OnRegistered left →
      release.OnRegistered right → ¬left.SameMetadata right →
        (release.action user left).action other right =
          (release.action other right).action user left) ∧
      ∀ left right, release.Concurrent left → Interleaved right left →
        release.run left = release.run right := by
  constructor
  · intro user other left right husers hleft hright hmetadata
    exact action_comm husers hleft hright hmetadata
  · intro left right hconcurrent hinterleaved
    have hright : ∀ entry ∈ right, entry ∈ left := by
      intro entry hentry
      have hmine : entry ∈ right.filter fun other => other.user = entry.user :=
        List.mem_filter.mpr ⟨hentry, by simp⟩
      rw [hinterleaved entry.user] at hmine
      exact (List.mem_filter.mp hmine).1
    exact (commuting_of_concurrent hconcurrent).foldl_eq_of_interleave (fun _ hentry => hentry)
      hright hinterleaved hconcurrent.registered

/-- One user attests while another redacts. -/
theorem actions_commute_attest_redact :
    let cid := blake3HashToCid (.filled 32 7) .blob
    let release := (Release.new (.filled 20 0) none (.filled 32 1) 5).action (.filled 32 1)
      (.registerArtifact cid "app")
    let attest : SignedAction := ⟨.filled 32 2, .attest cid⟩
    let redact : SignedAction := ⟨.filled 32 3, .redact cid "broken"⟩
    release.run [attest, redact] = release.run [redact, attest] := by
  intro cid release attest redact
  have hartifact : release.artifact cid = some (.register (.filled 32 1) "app") :=
    artifact_action_of_none rfl ⟨.filled 32 1, .registerArtifact cid "app"⟩
  refine (actions_commute release).2 _ _ ⟨?_, ?_⟩ ?_
  · intro entry hentry
    rcases List.mem_pair.mp hentry with rfl | rfl
    · exact ⟨cid, _, rfl, hartifact⟩
    · exact ⟨cid, _, rfl, hartifact⟩
  · intro left hleft right hright _ hsame
    rcases List.mem_pair.mp hleft with rfl | rfl <;> cases hsame.2.1
  · have husers : attest.user ≠ redact.user := by decide
    intro who
    by_cases hwho : attest.user = who
    · subst hwho
      simp [husers.symm]
    · simp [List.filter_cons, hwho]

end Release

end RadicleArtifact.Cob
