import RadicleArtifact.Cob.Reducer

/-!
# Invariants of reachable releases

Three facts hold of every artifact a replay can reach: nobody both attests and
redacts it, its author never attests it, and no user is left with an empty set
of locations.  Along a run, artifacts, their authors and their redactions
persist.
-/

namespace RadicleArtifact.Cob

open RadicleArtifact.Core
open RadicleArtifact.Library

namespace Artifact

structure WellFormed (artifact : Artifact) : Prop where
  exclusive : ∀ did, ¬ (artifact.isAttestedBy did ∧ artifact.isRedactedBy did)
  author_not_attested : artifact.isAttestedBy artifact.author = false
  locations_nonempty : ∀ did, artifact.locationsOf did ≠ some ∅

theorem wellFormed_register (author : Did) (name : String) :
    (register author name).WellFormed where
  exclusive did := by simp [isAttestedBy, register]
  author_not_attested := by simp [isAttestedBy, register]
  locations_nonempty did := by simp [locationsOf, register]

theorem wellFormed_addLocation {artifact : Artifact} (hartifact : artifact.WellFormed)
    (user : Did) (location : Url) : (artifact.addLocation user location).WellFormed where
  exclusive := hartifact.exclusive
  author_not_attested := hartifact.author_not_attested
  locations_nonempty did := by
    rw [locationsOf_addLocation]
    split
    · intro hempty
      have hmem : location ∈ ((artifact.locationsOf user).getD ∅).insert location := by
        simp
      rw [Option.some.inj hempty] at hmem
      simp at hmem
    · exact hartifact.locations_nonempty did

theorem wellFormed_removeLocation {artifact : Artifact} (hartifact : artifact.WellFormed)
    (user : Did) (location : Url) :
    (artifact.removeLocation user location).WellFormed where
  exclusive := hartifact.exclusive
  author_not_attested := hartifact.author_not_attested
  locations_nonempty did := by
    rw [locationsOf_removeLocation]
    split
    · intro hempty
      have hkept := (Option.filter_eq_some_iff.mp hempty).2
      simp at hkept
    · exact hartifact.locations_nonempty did

theorem wellFormed_attest {artifact : Artifact} (hartifact : artifact.WellFormed)
    (user : Did) : (artifact.attest user).WellFormed := by
  by_cases hcan : artifact.canAttest user
  · obtain ⟨hauthor, hclean⟩ := canAttest_iff.mp hcan
    have hredactions : ∀ did,
        (artifact.attest user).isRedactedBy did = artifact.isRedactedBy did := by
      intro did
      rw [attest, if_pos hcan, isRedactedBy, isRedactedBy]
    refine ⟨fun did => ?_, ?_, fun did => ?_⟩
    · rw [isAttestedBy_attest, hredactions]
      rintro ⟨hattested, hredacted⟩
      by_cases hdid : did = user
      · rw [hdid, isRedactedBy_eq_isSome, hclean] at hredacted
        simp at hredacted
      · exact hartifact.exclusive did ⟨by simpa [hdid] using hattested, hredacted⟩
    · rw [author_attest, isAttestedBy_attest, hartifact.author_not_attested]
      simp [hauthor.symm]
    · rw [attest, if_pos hcan]
      exact hartifact.locations_nonempty did
  · rwa [attest, if_neg hcan]

theorem wellFormed_redact {artifact : Artifact} (hartifact : artifact.WellFormed)
    (user : Did) (reason : String) : (artifact.redact user reason).WellFormed where
  exclusive did := by
    rw [isAttestedBy_redact, isRedactedBy_redact]
    by_cases hdid : did = user
    · simp [hdid]
    · simpa [hdid] using hartifact.exclusive did
  author_not_attested := by
    have hauthor : (artifact.redact user reason).author = artifact.author := rfl
    rw [hauthor, isAttestedBy_redact, hartifact.author_not_attested, Bool.and_false]
  locations_nonempty := hartifact.locations_nonempty

theorem wellFormed_apply {artifact : Artifact} (hartifact : artifact.WellFormed)
    (user : Did) (action : Action) : (artifact.apply user action).WellFormed := by
  have hsame : ∀ changed : Artifact, changed.author = artifact.author →
      changed.attestations = artifact.attestations →
      changed.redactions = artifact.redactions →
      changed.locations = artifact.locations → changed.WellFormed := by
    rintro ⟨author, name, locations, attestations, redactions, metadata⟩ rfl rfl rfl rfl
    exact ⟨hartifact.exclusive, hartifact.author_not_attested,
      hartifact.locations_nonempty⟩
  cases action with
  | create oid tag => exact hartifact
  | registerArtifact cid name =>
      rw [apply]
      split
      · exact hsame _ rfl rfl rfl rfl
      · exact hartifact
  | addLocation cid location => exact wellFormed_addLocation hartifact user location
  | removeLocation cid location =>
      exact wellFormed_removeLocation hartifact user location
  | attest cid => exact wellFormed_attest hartifact user
  | redact cid reason => exact wellFormed_redact hartifact user reason
  | setMetadata cid key value => exact hsame _ rfl rfl rfl rfl
  | removeMetadata cid key => exact hsame _ rfl rfl rfl rfl

/-- A redaction is permanent. -/
theorem isRedactedBy_apply {artifact : Artifact} {did : Did}
    (hredacted : artifact.isRedactedBy did) (user : Did) (action : Action) :
    (artifact.apply user action).isRedactedBy did := by
  cases action with
  | registerArtifact cid name =>
      rwa [read_apply_register (isRedactedBy · did) fun _ => rfl]
  | attest cid =>
      rwa [apply, read_attest (isRedactedBy · did) fun _ => rfl]
  | redact cid reason =>
      rw [apply, isRedactedBy_redact, hredacted, Bool.or_true]
  | _ => exact hredacted

end Artifact

namespace Release

def WellFormed (release : Release) : Prop :=
  ∀ cid artifact, release.artifact cid = some artifact → artifact.WellFormed

theorem wellFormed_new (oid : Oid) (tag : Option Oid) (creator : Did)
    (timestamp : Timestamp) : (Release.new oid tag creator timestamp).WellFormed := by
  intro cid artifact hartifact
  simp at hartifact

theorem wellFormed_action {release : Release} (hrelease : release.WellFormed)
    (entry : SignedAction) : (release.action entry.user entry.action).WellFormed := by
  intro cid artifact hartifact
  cases hslot : release.artifact cid with
  | some existing =>
      rw [artifact_action_of_some hslot entry] at hartifact
      obtain rfl := Option.some.inj hartifact
      rw [Artifact.observe]
      split
      · exact Artifact.wellFormed_apply (hrelease cid existing hslot) _ _
      · exact hrelease cid existing hslot
  | none =>
      rw [artifact_action_of_none hslot entry] at hartifact
      obtain ⟨name, -, rfl⟩ := Option.map_eq_some_iff.mp hartifact
      exact Artifact.wellFormed_register entry.user name

theorem wellFormed_run {release : Release} (hrelease : release.WellFormed)
    (history : List SignedAction) : (release.run history).WellFormed := by
  induction history generalizing release with
  | nil => exact hrelease
  | cons entry history ih => exact ih (wellFormed_action hrelease entry)

/-- Every replayed release satisfies the invariants. -/
theorem wellFormed_replay {commit : Oid → Except String Unit} {root : Op}
    {ops : List Op} {release : Release} (hreplay : replay commit root ops = .ok release) :
    release.WellFormed := by
  obtain ⟨oid, tag, actions, -, -, rfl⟩ := replay_eq_ok_iff.mp hreplay
  exact wellFormed_run (wellFormed_new oid tag root.author root.timestamp) _

theorem wellFormed_of_replayed {release : Release} (hreplayed : release.Replayed) :
    release.WellFormed := by
  obtain ⟨commit, root, ops, hreplay⟩ := hreplayed
  exact wellFormed_replay hreplay

/-- What a later state of a release keeps of an earlier one. -/
structure Persists (before after : Release) : Prop where
  oid : after.oid = before.oid
  tag : after.tag = before.tag
  creator : after.creator = before.creator
  timestamp : after.timestamp = before.timestamp
  artifacts : ∀ cid artifact, before.artifact cid = some artifact →
    ∃ later, after.artifact cid = some later ∧ later.author = artifact.author ∧
      ∀ did, artifact.isRedactedBy did → later.isRedactedBy did

theorem Persists.refl (release : Release) : release.Persists release where
  oid := rfl
  tag := rfl
  creator := rfl
  timestamp := rfl
  artifacts _ artifact hartifact := ⟨artifact, hartifact, rfl, fun _ hredacted => hredacted⟩

theorem Persists.trans {first second third : Release} (hearlier : first.Persists second)
    (hlater : second.Persists third) : first.Persists third where
  oid := hlater.oid.trans hearlier.oid
  tag := hlater.tag.trans hearlier.tag
  creator := hlater.creator.trans hearlier.creator
  timestamp := hlater.timestamp.trans hearlier.timestamp
  artifacts cid artifact hartifact := by
    obtain ⟨middle, hmiddle, hauthor, hredacted⟩ :=
      hearlier.artifacts cid artifact hartifact
    obtain ⟨last, hlast, hauthor', hredacted'⟩ := hlater.artifacts cid middle hmiddle
    exact ⟨last, hlast, hauthor'.trans hauthor,
      fun did hdid => hredacted' did (hredacted did hdid)⟩

theorem persists_action (release : Release) (entry : SignedAction) :
    release.Persists (release.action entry.user entry.action) := by
  obtain ⟨hoid, htag, hcreator, htimestamp⟩ :=
    fields_action release entry.user entry.action
  refine ⟨hoid, htag, hcreator, htimestamp, fun cid artifact hartifact => ?_⟩
  refine ⟨_, artifact_action_of_some hartifact entry, artifact.author_observe cid entry,
    fun did hredacted => ?_⟩
  rw [Artifact.observe]
  split
  · exact Artifact.isRedactedBy_apply hredacted _ _
  · exact hredacted

theorem persists_run (release : Release) (history : List SignedAction) :
    release.Persists (release.run history) := by
  induction history generalizing release with
  | nil => exact .refl release
  | cons entry history ih => exact (release.persists_action entry).trans (ih _)

/-- Replaying more operations keeps what the release already records. -/
theorem persists_replay {commit : Oid → Except String Unit} {root : Op}
    {earlier : List Op} {before : Release} (hbefore : replay commit root earlier = .ok before)
    (later : List Op) :
    ∃ after, replay commit root (earlier ++ later) = .ok after ∧ before.Persists after := by
  refine ⟨before.run (later.flatMap Op.signedActions), ?_, before.persists_run _⟩
  rw [replay] at hbefore ⊢
  cases hroot : fromRoot commit root with
  | error err => simp [hroot, Except.map] at hbefore
  | ok release =>
      simp only [hroot, Except.map, Except.ok.injEq] at hbefore ⊢
      rw [List.foldl_append, hbefore, foldl_op_eq_run]

end Release

end RadicleArtifact.Cob
