import RadicleArtifact.Cob.Replay
import RadicleArtifact.Trust.Trust

/-!
# Strangers

Anyone on the network may act on a release.  Strangers, who are neither
delegates nor the local user, cannot make a trusted artifact fail the check,
with one exception by design: the first registration decides the author.
-/

namespace RadicleArtifact.Trust

open RadicleArtifact.Core
open RadicleArtifact.Library
open RadicleArtifact.Cob

@[simp]
theorem admits_trusted (trust : Trust) (did : Did) :
    trust.admits .trusted did = trust.trusts did := rfl

/-- The release holds an artifact under `cid` that passes the check. -/
def Passes (trust : Trust) (release : Release) (cid : Cid) : Prop :=
  ∃ artifact, release.artifact cid = some artifact ∧
    trust.check .trusted release artifact = .ok ()

/-- The first registration of `cid` in the history, if any, is by a trusted
party. -/
def FirstRegisteredByTrusted (trust : Trust) (cid : Cid) (history : List SignedAction) :
    Prop :=
  ∀ earlier first later, history = earlier ++ first :: later →
    (first.registeredName cid).isSome →
    (∀ entry ∈ earlier, entry.registeredName cid = none) → trust.trusts first.user

section Run

variable {trust : Trust} {release : Release} {cid : Cid}

/-- The check reads the first registration and the redactions of the author and
the delegates after it. -/
theorem passes_run_iff_of_first (habsent : release.artifact cid = none)
    (hcreator : trust.trusts release.creator) (earlier later : List SignedAction)
    {first : SignedAction} {name : String} (hname : first.registeredName cid = some name)
    (hfirst : ∀ entry ∈ earlier, entry.registeredName cid = none) :
    trust.Passes (release.run (earlier ++ first :: later)) cid ↔
      trust.trusts first.user ∧
        ∀ did, (did = first.user ∨ did ∈ trust.delegates) →
          ∀ entry ∈ later, entry.redactWrite cid did = none := by
  have hartifact : (release.run (earlier ++ first :: later)).artifact cid = _ :=
    Release.artifact_run_of_first habsent hname hfirst
  have hwithdrawn : ¬ Withdrawn (later.foldl (Artifact.observe cid)
        (Artifact.register first.user name)) trust.delegates ↔
      ∀ did, (did = first.user ∨ did ∈ trust.delegates) →
        ∀ entry ∈ later, entry.redactWrite cid did = none := by
    simp only [Withdrawn, Artifact.author_foldl_observe, Artifact.author_register,
      Artifact.isRedactedBy_eq_isSome, Artifact.redactionBy_foldl_observe,
      ← lastWrite_eq_none_iff, not_exists, not_and, Bool.not_eq_true,
      Option.isSome_eq_false_iff, Option.isNone_iff_eq_none]
    simp [Artifact.redactionBy, Artifact.register]
  have hfields := (release.fields_run (earlier ++ first :: later)).2.2.1
  simp only [Passes, hartifact, Option.some.injEq, exists_eq_left', check_eq_ok_iff,
    admits_trusted, hfields, hcreator, true_and, hwithdrawn,
    Artifact.author_foldl_observe, Artifact.author_register]

/-- A redaction counts only if its signer does. -/
theorem redactWrite_eq_none_of_stranger {entry : SignedAction} {did : Did}
    (hdid : trust.trusts did) (hstranger : trust.trusts entry.user = false) :
    entry.redactWrite cid did = none := by
  rw [SignedAction.redactWrite, if_neg]
  rintro rfl
  simp [hdid] at hstranger

end Run

/-- An artifact that passes the check after the trusted actions alone passes it
after any actions of strangers among them, if and only if no stranger is the
first to register it. -/
theorem strangers_do_not_interfere (trust : Trust) (oid : Oid) (tag : Option Oid)
    (creator : Did) (timestamp : Timestamp) (hcreator : trust.trusts creator)
    (honest mixed : List SignedAction)
    (hinserted : (mixed.filter fun entry => trust.trusts entry.user) = honest)
    (cid : Cid)
    (hpasses : trust.Passes ((Release.new oid tag creator timestamp).run honest) cid) :
    trust.Passes ((Release.new oid tag creator timestamp).run mixed) cid ↔
      trust.FirstRegisteredByTrusted cid mixed := by
  subst hinserted
  have habsent := Release.artifact_new oid tag creator timestamp cid
  have hregistered : ∃ entry ∈ mixed, ∃ name, entry.registeredName cid = some name := by
    obtain ⟨artifact, hartifact, -⟩ := hpasses
    obtain ⟨entry, hentry, name, hname⟩ :=
      (Release.exists_artifact_run_iff habsent _).mp ⟨artifact, hartifact⟩
    exact ⟨entry, (List.mem_filter.mp hentry).1, name, hname⟩
  obtain ⟨earlier, first, later, name, rfl, hname, hfirst⟩ :=
    Release.exists_first_registration hregistered
  rw [passes_run_iff_of_first habsent hcreator earlier later hname hfirst]
  constructor
  · rintro ⟨htrusted, -⟩ earlier' first' later' hhistory' hregisters' hfirst'
    obtain ⟨rfl, -⟩ := eq_of_first (fun entry : SignedAction =>
      (entry.registeredName cid).isSome = true) hhistory'
      (by simp [hname]) hregisters' (by simpa using hfirst) (by simpa using hfirst')
    exact htrusted
  · intro hfirstTrusted
    have htrusted := hfirstTrusted earlier first later rfl (by simp [hname]) hfirst
    refine ⟨htrusted, fun did hparty entry hentry => ?_⟩
    -- The first registration survives in the honest history, so its redactions decide.
    rw [List.filter_append, List.filter_cons_of_pos (by simpa using htrusted),
      passes_run_iff_of_first habsent hcreator _ _ hname fun other hother =>
        hfirst other (List.mem_filter.mp hother).1] at hpasses
    have hdid : trust.trusts did := by
      rcases hparty with rfl | hdelegate
      · exact htrusted
      · exact trusts_iff.mpr (Or.inl hdelegate)
    cases hsigner : trust.trusts entry.user with
    | true => exact hpasses.2 did hparty entry (List.mem_filter.mpr ⟨hentry, hsigner⟩)
    | false => exact redactWrite_eq_none_of_stranger hdid hsigner

/-- A redaction by a stranger between the actions of the local user. -/
theorem strangers_do_not_interfere_by_redacting :
    let owner : Did := .filled 32 1
    let cid := blake3HashToCid (.filled 32 7) .blob
    let trust : Trust := ⟨∅, some owner⟩
    trust.Passes ((Release.new (.filled 20 0) none owner 5).run
      [⟨owner, .registerArtifact cid "app"⟩, ⟨.filled 32 9, .redact cid "veto"⟩]) cid := by
  intro owner cid trust
  have hstranger : trust.trusts (.filled 32 9) = false := by decide
  have howner : trust.trusts owner := by decide
  have hname : SignedAction.registeredName cid ⟨owner, .registerArtifact cid "app"⟩ =
      some "app" := by simp [SignedAction.registeredName]
  have hpasses : trust.Passes ((Release.new (.filled 20 0) none owner 5).run
      [⟨owner, .registerArtifact cid "app"⟩]) cid :=
    (passes_run_iff_of_first rfl howner [] [] hname (by simp)).mpr ⟨howner, by simp⟩
  refine (strangers_do_not_interfere trust _ none owner 5 howner _ _ ?_ cid hpasses).mpr ?_
  · simp [hstranger, howner]
  · intro earlier first later hhistory hregisters hfirst
    obtain ⟨rfl, -⟩ := eq_of_first (fun entry : SignedAction =>
      (entry.registeredName cid).isSome = true)
      (show [] ++ _ = _ from hhistory) (by simp [hname]) hregisters (by simp)
      (by simpa using hfirst)
    exact howner

/-- A stranger who registers the artifact before the delegate takes it over. -/
theorem stranger_registers_first :
    let delegate : Did := .filled 32 1
    let cid := blake3HashToCid (.filled 32 7) .blob
    let trust : Trust := ⟨{delegate}, none⟩
    let registration : SignedAction := ⟨delegate, .registerArtifact cid "app"⟩
    let intruder : SignedAction := ⟨.filled 32 9, .registerArtifact cid "app"⟩
    trust.trusts delegate ∧
      ([intruder, registration].filter fun entry => trust.trusts entry.user) =
        [registration] ∧
      trust.Passes ((Release.new (.filled 20 0) none delegate 5).run [registration]) cid ∧
      ¬ trust.Passes ((Release.new (.filled 20 0) none delegate 5).run
        [intruder, registration]) cid := by
  intro delegate cid trust registration intruder
  have hdelegate : trust.trusts delegate := by decide
  have hintruder : trust.trusts intruder.user = false := by decide
  have hname : ∀ user, SignedAction.registeredName cid
      ⟨user, .registerArtifact cid "app"⟩ = some "app" := by
    simp [SignedAction.registeredName]
  refine ⟨hdelegate, by simp [registration, hintruder, hdelegate], ?_, fun hpasses => ?_⟩
  · exact (passes_run_iff_of_first rfl hdelegate [] [] (hname _) (by simp)).mpr
      ⟨hdelegate, by simp⟩
  · have htrusted := ((passes_run_iff_of_first rfl hdelegate [] [registration] (hname _)
      (by simp)).mp hpasses).1
    exact Bool.false_ne_true (hintruder.symm.trans htrusted)

end RadicleArtifact.Trust
