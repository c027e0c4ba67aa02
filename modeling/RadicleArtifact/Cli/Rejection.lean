import RadicleArtifact.Cli.Verify

/-!
# Why a file does not verify

When no candidate passes the check, a redaction outranks the other reasons.  Each
candidate gives only the first reason that applies to it, though, and the creator of the
release is asked first: a redaction in a release that is out of scope goes unreported.
-/

namespace RadicleArtifact.Cli.VerifyContext

open RadicleArtifact.Core
open RadicleArtifact.Library
open RadicleArtifact.Cob

/-- The redactions a reason carries. -/
def redactionsOf : Trust.Untrusted → Option (BTreeMap Did String)
  | .redacted redactions => some redactions
  | _ => none

variable (context : VerifyContext)

theorem rejection_eq_redacted_iff (untrusted : List Trust.Untrusted) (cid : Cid)
    (redactions : BTreeMap Did String) :
    context.rejection untrusted cid = .redacted cid redactions ↔
      untrusted.findSome? redactionsOf = some redactions := by
  rw [rejection]
  split
  · rename_i found hfound
    have hsome : untrusted.findSome? redactionsOf = some found := hfound
    simp [hsome]
  · rename_i hfound
    have hnone : untrusted.findSome? redactionsOf = none := hfound
    rw [hnone]
    split <;> simp

/-- The release creator is in scope, and a trusted party has redacted the artifact. -/
def WithdrawnInScope (scope : Trust.Scope) (cid : Cid) (entry : ReleaseId × Release) : Prop :=
  context.trust.admits scope entry.2.creator ∧
    ∃ artifact, entry.2.artifact cid = some artifact ∧
      Trust.Withdrawn artifact context.delegates

/-- The redactions that the check of a candidate reports. -/
def reported (scope : Trust.Scope) (cid : Cid) (entry : ReleaseId × Release) :
    Option (BTreeMap Did String) :=
  (entry.2.artifact cid).bind fun artifact =>
    match context.trust.check scope entry.2 artifact with
    | .ok () => none
    | .error reason => redactionsOf reason

theorem reported_eq_some_iff {scope : Trust.Scope} {cid : Cid} {entry : ReleaseId × Release}
    {redactions : BTreeMap Did String} :
    context.reported scope cid entry = some redactions ↔
      context.trust.admits scope entry.2.creator ∧
        ∃ artifact, entry.2.artifact cid = some artifact ∧
          Trust.Withdrawn artifact context.delegates ∧
            redactions = Trust.withdrawals artifact context.delegates := by
  rw [reported]
  cases hartifact : entry.2.artifact cid with
  | none => simp
  | some artifact =>
      have hwithdrawn : (Trust.withdrawals artifact context.trust.delegates).isEmpty = true ↔
          ¬Trust.Withdrawn artifact context.delegates := Trust.withdrawals_isEmpty_iff
      rw [Option.bind_some, Trust.check, Trust.checkBy]
      cases hcreator : context.trust.admits scope entry.2.creator with
      | false => simp [redactionsOf]
      | true =>
          cases hempty : (Trust.withdrawals artifact context.trust.delegates).isEmpty with
          | false =>
              have hyes : Trust.Withdrawn artifact context.delegates := by
                by_contra hno
                rw [hwithdrawn.mpr hno] at hempty
                exact Bool.false_ne_true hempty.symm
              simp [redactionsOf, hyes, trust, eq_comm]
          | true =>
              have hno := hwithdrawn.mp hempty
              cases context.trust.admits scope artifact.author <;> simp [redactionsOf, hno]

theorem withdrawnInScope_iff_reported {scope : Trust.Scope} {cid : Cid}
    {entry : ReleaseId × Release} :
    context.WithdrawnInScope scope cid entry ↔
      ∃ redactions, context.reported scope cid entry = some redactions := by
  simp only [reported_eq_some_iff, WithdrawnInScope]
  constructor
  · rintro ⟨hcreator, artifact, hartifact, hwithdrawn⟩
    exact ⟨_, hcreator, artifact, hartifact, hwithdrawn, rfl⟩
  · rintro ⟨redactions, hcreator, artifact, hartifact, hwithdrawn, -⟩
    exact ⟨hcreator, artifact, hartifact, hwithdrawn⟩

/-- No candidate passes the check. -/
def NoneVerifies (scope : Trust.Scope) (cid : Cid) (candidates : List (ReleaseId × Release)) :
    Prop :=
  ∀ entry ∈ candidates, ∀ artifact, entry.2.artifact cid = some artifact →
    context.trust.check scope entry.2 artifact ≠ .ok ()

/-- A delegate has redacted the artifact of some candidate. -/
def CandidateRedacted (cid : Cid) (candidates : List (ReleaseId × Release)) : Prop :=
  ∃ entry ∈ candidates, ∃ artifact, entry.2.artifact cid = some artifact ∧
    ∃ delegate ∈ context.delegates, artifact.isRedactedBy delegate

/-- The rejected candidates report the redactions of their first reasons. -/
theorem judge_of_rejected {scope : Trust.Scope} {cid : Cid}
    {candidates : List (ReleaseId × Release)}
    (hholding : ∀ entry ∈ candidates, (entry.2.artifact cid).isSome)
    (hnone : context.NoneVerifies scope cid candidates) :
    ∃ untrusted, context.judge scope cid candidates = some ([], untrusted) ∧
      untrusted.findSome? redactionsOf = candidates.findSome? (context.reported scope cid) := by
  induction candidates with
  | nil => exact ⟨[], rfl, rfl⟩
  | cons candidate candidates ih =>
      obtain ⟨id, release⟩ := candidate
      obtain ⟨hcandidate, hlater⟩ := List.forall_mem_cons.mp hholding
      obtain ⟨hmine, hothers⟩ := List.forall_mem_cons.mp hnone
      obtain ⟨untrusted, hjudge, hfirst⟩ := ih hlater hothers
      obtain ⟨artifact, hartifact⟩ := Option.isSome_iff_exists.mp hcandidate
      cases hcheck : context.trust.check scope release artifact with
      | ok value => exact absurd hcheck (hmine artifact hartifact)
      | error reason =>
          refine ⟨reason :: untrusted, by simp [judge, hartifact, hjudge, hcheck], ?_⟩
          have hreported : context.reported scope cid (id, release) = redactionsOf reason := by
            rw [reported, hartifact, Option.bind_some, hcheck]
          rw [List.findSome?_cons, List.findSome?_cons, hreported, hfirst]

variable {context} {command : Verify} {cid : Cid} {candidates : List (ReleaseId × Release)}
  {scope : Trust.Scope}

/-- The command ends with the error. -/
def FailsWith (outcome : Option Report) (err : VerifyError) : Prop :=
  ∃ report, outcome = some report ∧ report.result = .error err

theorem failsWith_redacted_iff (hfile : context.computeCidFromPath command.path = .ok cid)
    (hlookup : context.findByCid cid = .ok candidates)
    (hholding : ∀ entry ∈ candidates, (entry.2.artifact cid).isSome)
    (hnone : context.NoneVerifies scope cid candidates) {redactions : BTreeMap Did String} :
    FailsWith (context.verifyIn scope command) (.redacted cid redactions) ↔
      candidates.findSome? (context.reported scope cid) = some redactions := by
  obtain ⟨untrusted, hjudge, hfirst⟩ := context.judge_of_rejected hholding hnone
  rw [← hfirst, ← context.rejection_eq_redacted_iff untrusted cid, FailsWith, verifyIn, hfile]
  simp only [hlookup, hjudge, Option.bind_eq_bind, Option.bind_some, List.isEmpty_nil, if_true]
  cases context.usePretty command <;> simp

/-! ## When the redaction is what the user sees -/

variable (context)

/-- If nothing verifies and a delegate has redacted a candidate, the command fails with
some redaction. -/
def RedactionOutranks (command : Verify) (scope : Trust.Scope) (cid : Cid)
    (candidates : List (ReleaseId × Release)) : Prop :=
  context.NoneVerifies scope cid candidates → context.CandidateRedacted cid candidates →
    ∃ redactions, FailsWith (context.verifyIn scope command) (.redacted cid redactions)

/-- If nothing verifies and a delegate has redacted a candidate, the command fails with
the redaction of a candidate by a delegate. -/
def RedactionExposed (command : Verify) (scope : Trust.Scope) (cid : Cid)
    (candidates : List (ReleaseId × Release)) : Prop :=
  context.NoneVerifies scope cid candidates → context.CandidateRedacted cid candidates →
    ∃ redactions, FailsWith (context.verifyIn scope command) (.redacted cid redactions) ∧
      ∃ entry ∈ candidates, ∃ artifact, entry.2.artifact cid = some artifact ∧
        ∃ delegate ∈ context.delegates, ∃ reason, artifact.redactionBy delegate = some reason ∧
          redactions[delegate]? = some reason

/-- The first candidate that is withdrawn in scope is withdrawn by a delegate. -/
def FirstByDelegate (scope : Trust.Scope) (cid : Cid)
    (candidates : List (ReleaseId × Release)) : Prop :=
  ∃ before entry after, candidates = before ++ entry :: after ∧
    (∀ earlier ∈ before, ¬context.WithdrawnInScope scope cid earlier) ∧
      context.trust.admits scope entry.2.creator ∧
        ∃ artifact, entry.2.artifact cid = some artifact ∧
          ∃ delegate ∈ context.delegates, artifact.isRedactedBy delegate

variable {context}

theorem findSome?_reported_isSome_iff :
    (∃ redactions, candidates.findSome? (context.reported scope cid) = some redactions) ↔
      ∃ entry ∈ candidates, context.WithdrawnInScope scope cid entry := by
  simp only [withdrawnInScope_iff_reported, ← Option.isSome_iff_exists, List.findSome?_isSome_iff]

/-- A delegate's redaction withdraws the artifact and is reported as it is. -/
theorem getElem?_withdrawals_of_delegate {artifact : Artifact} {delegates : BTreeSet Did}
    {delegate : Did} (hdelegate : delegate ∈ delegates) :
    (Trust.withdrawals artifact delegates)[delegate]? = artifact.redactionBy delegate := by
  have hparty : Trust.isAuthorOrDelegate delegate artifact.author delegates = true :=
    Trust.isAuthorOrDelegate_iff.mpr (.inr hdelegate)
  rw [Trust.getElem?_withdrawals]
  cases artifact.redactionBy delegate <;> simp [Option.filter, hparty]

theorem isRedactedBy_iff {artifact : Artifact} {did : Did} :
    artifact.isRedactedBy did = true ↔ ∃ reason, artifact.redactionBy did = some reason := by
  rw [Artifact.isRedactedBy_eq_isSome, Option.isSome_iff_exists]

/-- The redactions that are reported hold one by a delegate exactly when the first
withdrawn candidate has one. -/
theorem findSome?_reported_by_delegate_iff :
    (∃ redactions, candidates.findSome? (context.reported scope cid) = some redactions ∧
      ∃ delegate ∈ context.delegates, ∃ reason, redactions[delegate]? = some reason) ↔
      context.FirstByDelegate scope cid candidates := by
  constructor
  · rintro ⟨redactions, hfirst, delegate, hdelegate, reason, hreason⟩
    obtain ⟨before, entry, after, rfl, hentry, hbefore⟩ := List.findSome?_eq_some_iff.mp hfirst
    obtain ⟨hcreator, artifact, hartifact, -, rfl⟩ := context.reported_eq_some_iff.mp hentry
    rw [getElem?_withdrawals_of_delegate hdelegate] at hreason
    refine ⟨before, entry, after, rfl, fun earlier hearlier hwithdrawn => ?_, hcreator, artifact,
      hartifact, delegate, hdelegate, isRedactedBy_iff.mpr ⟨reason, hreason⟩⟩
    obtain ⟨found, hfound⟩ := context.withdrawnInScope_iff_reported.mp hwithdrawn
    rw [hbefore earlier hearlier] at hfound
    cases hfound
  · rintro ⟨before, entry, after, rfl, hbefore, hcreator, artifact, hartifact, delegate,
      hdelegate, hredacted⟩
    obtain ⟨reason, hreason⟩ := isRedactedBy_iff.mp hredacted
    refine ⟨Trust.withdrawals artifact context.delegates, ?_, delegate, hdelegate, reason, ?_⟩
    · refine List.findSome?_eq_some_iff.mpr ⟨before, entry, after, rfl, ?_, ?_⟩
      · exact context.reported_eq_some_iff.mpr ⟨hcreator, artifact, hartifact,
          ⟨delegate, .inr hdelegate, hredacted⟩, rfl⟩
      · intro earlier hearlier
        rw [Option.eq_none_iff_forall_ne_some]
        exact fun found hfound => hbefore earlier hearlier
          (context.withdrawnInScope_iff_reported.mpr ⟨found, hfound⟩)
    · rw [getElem?_withdrawals_of_delegate hdelegate, hreason]

/-- What is reported of a delegate is the redaction of a candidate. -/
theorem exists_candidate_of_reported {redactions : BTreeMap Did String} {delegate : Did}
    {reason : String}
    (hfirst : candidates.findSome? (context.reported scope cid) = some redactions)
    (hdelegate : delegate ∈ context.delegates) (hreason : redactions[delegate]? = some reason) :
    ∃ entry ∈ candidates, ∃ artifact, entry.2.artifact cid = some artifact ∧
      artifact.redactionBy delegate = some reason := by
  obtain ⟨entry, hentry, hreported⟩ := List.exists_of_findSome?_eq_some hfirst
  obtain ⟨-, artifact, hartifact, -, rfl⟩ := context.reported_eq_some_iff.mp hreported
  rw [getElem?_withdrawals_of_delegate hdelegate] at hreason
  exact ⟨entry, hentry, artifact, hartifact, hreason⟩

/-- A delegate's redaction of a candidate is what the user sees exactly when a candidate in
scope is withdrawn, and it is exposed when the first such candidate has one. -/
theorem redaction_outranks_iff (context : VerifyContext) (command : Verify) (scope : Trust.Scope)
    (cid : Cid) (candidates : List (ReleaseId × Release))
    (hfile : context.computeCidFromPath command.path = .ok cid)
    (hlookup : context.findByCid cid = .ok candidates)
    (hholding : ∀ entry ∈ candidates, (entry.2.artifact cid).isSome) :
    (context.RedactionOutranks command scope cid candidates ↔
      (context.NoneVerifies scope cid candidates → context.CandidateRedacted cid candidates →
        ∃ entry ∈ candidates, context.WithdrawnInScope scope cid entry)) ∧
    (context.RedactionExposed command scope cid candidates ↔
      (context.NoneVerifies scope cid candidates → context.CandidateRedacted cid candidates →
        context.FirstByDelegate scope cid candidates)) := by
  constructor
  · refine imp_congr_right fun hnone => imp_congr_right fun _ => ?_
    simp only [failsWith_redacted_iff hfile hlookup hholding hnone, findSome?_reported_isSome_iff]
  · refine imp_congr_right fun hnone => imp_congr_right fun _ => ?_
    simp only [failsWith_redacted_iff hfile hlookup hholding hnone,
      ← findSome?_reported_by_delegate_iff]
    refine exists_congr fun redactions => and_congr_right fun hfirst => ⟨?_, ?_⟩
    · rintro ⟨-, -, -, -, delegate, hdelegate, reason, -, hreason⟩
      exact ⟨delegate, hdelegate, reason, hreason⟩
    · rintro ⟨delegate, hdelegate, reason, hreason⟩
      obtain ⟨entry, hentry, artifact, hartifact, hmine⟩ :=
        exists_candidate_of_reported hfirst hdelegate hreason
      exact ⟨entry, hentry, artifact, hartifact, delegate, hdelegate, reason, hmine, hreason⟩

/-- A delegate redacts their artifact in the one release that holds it. -/
theorem redaction_outranks_in_scope :
    let delegate : Did := .filled 32 1
    let cid := blake3HashToCid (.filled 32 7) .blob
    let withdrawn := (Release.new (.filled 20 1) none delegate 5).run
      [⟨delegate, .registerArtifact cid "app"⟩, ⟨delegate, .redact cid "compromised"⟩]
    let context := ofReleases delegate cid [(.filled 20 11, withdrawn)]
    context.RedactionExposed ⟨"app", false, false, true⟩ .trusted cid
      [(.filled 20 11, withdrawn)] := by
  intro delegate cid withdrawn context
  have hartifact : withdrawn.artifact cid =
      some ((Artifact.register delegate "app").redact delegate "compromised") := rfl
  have hdelegate : delegate ∈ context.delegates := by decide
  refine (redaction_outranks_iff context ⟨"app", false, false, true⟩ .trusted cid _ rfl rfl
    (by simp [hartifact])).2.mpr fun _ _ => ?_
  exact ⟨[], _, [], rfl, by simp, by decide, _, hartifact, delegate, hdelegate, by simp⟩

/-- A delegate redacts their artifact in a stranger's release: the creator is blamed. -/
theorem stranger_release_masks_redaction :
    let delegate : Did := .filled 32 1
    let stranger : Did := .filled 32 4
    let cid := blake3HashToCid (.filled 32 7) .blob
    let withdrawn := (Release.new (.filled 20 1) none stranger 5).run
      [⟨delegate, .registerArtifact cid "app"⟩, ⟨delegate, .redact cid "compromised"⟩]
    let context := ofReleases delegate cid [(.filled 20 11, withdrawn)]
    context.CandidateRedacted cid [(.filled 20 11, withdrawn)] ∧
      context.NoneVerifies .trusted cid [(.filled 20 11, withdrawn)] ∧
        FailsWith (runVerify context ⟨"app", false, false, true⟩)
          (.untrustedCreator cid stranger) := by
  intro delegate stranger cid withdrawn context
  have hartifact : withdrawn.artifact cid =
      some ((Artifact.register delegate "app").redact delegate "compromised") := rfl
  have hstranger : context.trust.admits .trusted stranger = false := by decide
  refine ⟨⟨_, List.mem_singleton_self _, _, hartifact, delegate, by decide, by simp⟩, ?_, ?_⟩
  · intro entry hentry artifact _ hcheck
    obtain rfl := List.mem_singleton.mp hentry
    have hcreator := (Trust.check_eq_ok_iff.mp hcheck).1
    rw [show withdrawn.creator = stranger from rfl, hstranger] at hcreator
    exact Bool.false_ne_true hcreator
  · have hcheck : context.trust.check .trusted withdrawn
        ((Artifact.register delegate "app").redact delegate "compromised") =
          .error (.creator stranger) := by
      rw [Trust.check, Trust.checkBy, show withdrawn.creator = stranger from rfl, hstranger]
      rfl
    have hjudge : context.judge .trusted cid [(.filled 20 11, withdrawn)] =
        some ([], [.creator stranger]) := by
      simp [judge, hartifact, hcheck]
    refine ⟨⟨(context.verifyFailure cid (.untrustedCreator cid stranger)).map .failure,
      .error (.untrustedCreator cid stranger)⟩, ?_, rfl⟩
    rw [runVerify, verifyIn]
    simp only [context, ofReleases, scope, Bool.false_eq_true, if_false] at hjudge ⊢
    rw [hjudge]
    rfl

end RadicleArtifact.Cli.VerifyContext
