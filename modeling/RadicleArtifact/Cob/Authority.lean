import RadicleArtifact.Cob.Reducer

/-!
# What a user may change

Every user owns a slice of each artifact: their locations, their redaction,
their attestation and their metadata writes.  No action reaches into the slice
of another user, and only the author of an artifact renames it.
-/

namespace RadicleArtifact.Cob

open RadicleArtifact.Core
open RadicleArtifact.Library

namespace Artifact

/-- Both artifacts agree on everything that is not `user`'s to change.  The
writes of the other users to a metadata key agree as a list, so in their order
too. -/
structure AgreeBeyond (user : Did) (before after : Artifact) : Prop where
  author : after.author = before.author
  name : before.author ≠ user → after.name = before.name
  locations : ∀ other, other ≠ user → after.locationsOf other = before.locationsOf other
  redactions : ∀ other, other ≠ user → after.redactionBy other = before.redactionBy other
  attestations : ∀ other, other ≠ user →
    after.isAttestedBy other = before.isAttestedBy other
  metadata : ∀ key, ((after.metadataWrites key).filter fun write => write.1 ≠ user) =
    (before.metadataWrites key).filter fun write => write.1 ≠ user

namespace AgreeBeyond

theorem refl (user : Did) (artifact : Artifact) : AgreeBeyond user artifact artifact where
  author := rfl
  name _ := rfl
  locations _ _ := rfl
  redactions _ _ := rfl
  attestations _ _ := rfl
  metadata _ := rfl

theorem trans {user : Did} {first second third : Artifact}
    (hearlier : AgreeBeyond user first second) (hlater : AgreeBeyond user second third) :
    AgreeBeyond user first third where
  author := hlater.author.trans hearlier.author
  name hauthor :=
    (hlater.name (hearlier.author ▸ hauthor)).trans (hearlier.name hauthor)
  locations other hother :=
    (hlater.locations other hother).trans (hearlier.locations other hother)
  redactions other hother :=
    (hlater.redactions other hother).trans (hearlier.redactions other hother)
  attestations other hother :=
    (hlater.attestations other hother).trans (hearlier.attestations other hother)
  metadata key := (hlater.metadata key).trans (hearlier.metadata key)

end AgreeBeyond

theorem agreeBeyond_writeMetadata (artifact : Artifact) (user : Did) (key : String)
    (write : MetadataWrite) :
    AgreeBeyond user artifact (artifact.writeMetadata user key write) where
  author := rfl
  name _ := rfl
  locations _ _ := rfl
  redactions _ _ := rfl
  attestations _ _ := rfl
  metadata wanted := by
    rw [metadataWrites_writeMetadata]
    by_cases hkey : wanted = key
    · simp [hkey, List.filter_append]
    · rw [if_neg hkey]

/-- An action on an artifact leaves every other user's slice alone. -/
theorem agreeBeyond_apply (artifact : Artifact) (user : Did) (action : Action) :
    AgreeBeyond user artifact (artifact.apply user action) := by
  cases action with
  | create oid tag => exact .refl user artifact
  | registerArtifact cid name =>
      rw [apply]
      split
      · rename_i hauthor
        exact { AgreeBeyond.refl user artifact with
          name := fun hother => absurd hauthor hother }
      · exact .refl user artifact
  | addLocation cid location =>
      exact { AgreeBeyond.refl user artifact with
        locations := fun other hother => by
          rw [apply, locationsOf_addLocation, if_neg hother] }
  | removeLocation cid location =>
      exact { AgreeBeyond.refl user artifact with
        locations := fun other hother => by
          rw [apply, locationsOf_removeLocation, if_neg hother] }
  | attest cid =>
      rw [apply, attest]
      split
      · rename_i hcan
        refine { AgreeBeyond.refl user artifact with
          attestations := fun other hother => ?_ }
        have hattested := isAttestedBy_attest artifact user other
        rwa [attest, if_pos hcan, decide_eq_false hother, Bool.false_and,
          Bool.false_or] at hattested
      · exact .refl user artifact
  | redact cid reason =>
      exact { AgreeBeyond.refl user artifact with
        redactions := fun other hother => by
          rw [apply, redactionBy_redact, if_neg hother]
        attestations := fun other hother => by
          rw [apply, isAttestedBy_redact, decide_eq_true hother, Bool.true_and] }
  | setMetadata cid key value => exact agreeBeyond_writeMetadata artifact user key _
  | removeMetadata cid key => exact agreeBeyond_writeMetadata artifact user key _

end Artifact

namespace Release

/-- Apply actions as `user`, in order. -/
def actAs (release : Release) (user : Did) (actions : List Action) : Release :=
  actions.foldl (fun release action => release.action user action) release

theorem op_eq_actAs (release : Release) (op : Op) :
    release.op op = release.actAs op.author op.actions := rfl

/-- The operations of one user are that user's actions, one after the other. -/
theorem foldl_op_eq_actAs (release : Release) (user : Did) {ops : List Op}
    (hauthor : ∀ op ∈ ops, op.author = user) :
    ops.foldl Release.op release = release.actAs user (ops.flatMap Op.actions) := by
  induction ops generalizing release with
  | nil => rfl
  | cons op ops ih =>
      rw [List.foldl_cons, ih _ fun other hother =>
        hauthor other (List.mem_cons_of_mem _ hother), op_eq_actAs,
        hauthor op (by simp), List.flatMap_cons, actAs, actAs, actAs, List.foldl_append]

/-- Both releases agree on everything that is not `user`'s to change.  An
artifact that only the later one holds is a registration by `user` in which
no other user has a slice. -/
structure AgreeBeyond (user : Did) (before after : Release) : Prop where
  oid : after.oid = before.oid
  tag : after.tag = before.tag
  creator : after.creator = before.creator
  timestamp : after.timestamp = before.timestamp
  existing : ∀ cid artifact, before.artifact cid = some artifact →
    ∃ changed, after.artifact cid = some changed ∧ artifact.AgreeBeyond user changed
  registered : ∀ cid artifact, before.artifact cid = none →
    after.artifact cid = some artifact →
      ∃ name, (Artifact.register user name).AgreeBeyond user artifact

namespace AgreeBeyond

theorem refl (user : Did) (release : Release) : AgreeBeyond user release release where
  oid := rfl
  tag := rfl
  creator := rfl
  timestamp := rfl
  existing _ artifact hartifact := ⟨artifact, hartifact, .refl user artifact⟩
  registered cid artifact habsent hartifact := by simp [habsent] at hartifact

theorem trans {user : Did} {first second third : Release}
    (hearlier : AgreeBeyond user first second) (hlater : AgreeBeyond user second third) :
    AgreeBeyond user first third where
  oid := hlater.oid.trans hearlier.oid
  tag := hlater.tag.trans hearlier.tag
  creator := hlater.creator.trans hearlier.creator
  timestamp := hlater.timestamp.trans hearlier.timestamp
  existing cid artifact hartifact := by
    obtain ⟨changed, hchanged, hagree⟩ := hearlier.existing cid artifact hartifact
    obtain ⟨final, hfinal, hagree'⟩ := hlater.existing cid changed hchanged
    exact ⟨final, hfinal, hagree.trans hagree'⟩
  registered cid artifact habsent hartifact := by
    cases hsecond : second.artifact cid with
    | none => exact hlater.registered cid artifact hsecond hartifact
    | some middle =>
        obtain ⟨name, hname⟩ := hearlier.registered cid middle habsent hsecond
        obtain ⟨final, hfinal, hagree⟩ := hlater.existing cid middle hsecond
        obtain rfl : final = artifact := Option.some.inj (hfinal.symm.trans hartifact)
        exact ⟨name, hname.trans hagree⟩

end AgreeBeyond

theorem agreeBeyond_action (release : Release) (user : Did) (action : Action) :
    AgreeBeyond user release (release.action user action) := by
  obtain ⟨hoid, htag, hcreator, htimestamp⟩ := fields_action release user action
  refine ⟨hoid, htag, hcreator, htimestamp, fun cid artifact hartifact => ?_,
    fun cid artifact habsent hartifact => ?_⟩
  · refine ⟨_, artifact_action_of_some hartifact ⟨user, action⟩, ?_⟩
    rw [Artifact.observe]
    split
    · exact artifact.agreeBeyond_apply user action
    · exact .refl user artifact
  · rw [artifact_action_of_none habsent ⟨user, action⟩] at hartifact
    obtain ⟨name, -, rfl⟩ := Option.map_eq_some_iff.mp hartifact
    exact ⟨name, .refl user _⟩

theorem agreeBeyond_actAs (release : Release) (user : Did) (actions : List Action) :
    AgreeBeyond user release (release.actAs user actions) := by
  induction actions generalizing release with
  | nil => exact .refl user release
  | cons action actions ih =>
      exact (release.agreeBeyond_action user action).trans
        (ih (release.action user action))

theorem artifact_actAs_of_unnamed (release : Release) (user : Did)
    {actions : List Action} {cid : Cid}
    (hunnamed : ∀ action ∈ actions, action.cid? ≠ some cid) :
    (release.actAs user actions).artifact cid = release.artifact cid := by
  induction actions generalizing release with
  | nil => rfl
  | cons action actions ih =>
      have htail := ih (release.action user action) fun other hother =>
        hunnamed other (List.mem_cons_of_mem _ hother)
      exact htail.trans
        (release.artifact_action_of_unnamed user (hunnamed action (by simp)))

/-- A user's actions change only that user's slice of the artifacts they name,
and nothing else of the release; so do that user's operations. -/
theorem own_slice_authority (release : Release) (user : Did) (actions : List Action) :
    AgreeBeyond user release (release.actAs user actions) ∧
      (∀ cid, (∀ action ∈ actions, action.cid? ≠ some cid) →
        (release.actAs user actions).artifact cid = release.artifact cid) ∧
      ∀ ops : List Op, (∀ op ∈ ops, op.author = user) →
        AgreeBeyond user release (ops.foldl Release.op release) := by
  refine ⟨release.agreeBeyond_actAs user actions,
    fun cid => release.artifact_actAs_of_unnamed user, fun ops hauthor => ?_⟩
  rw [foldl_op_eq_actAs release user hauthor]
  exact release.agreeBeyond_actAs user _

end Release

end RadicleArtifact.Cob
