import RadicleArtifact.Releases.Git

/-!
# Verifying a file

`verify` computes the identifier of a local file, looks up the releases that
register it, and applies the trust rules to each.  One release that passes is
enough, whatever the others say, so a redaction withdraws the file only when
every copy in scope is withdrawn.
-/

namespace RadicleArtifact.Cli

open RadicleArtifact.Core
open RadicleArtifact.Library
open RadicleArtifact.Cob

/-- The arguments of `verify`. -/
structure Verify where
  path : String
  allAuthors : Bool
  pretty : Bool
  json : Bool

inductive ComputeCid where
  | io
  | protocol (err : Error)

/-- Why a file does not verify.  The source keeps the text of the CID. -/
inductive VerifyError where
  | computeCid (err : ComputeCid)
  | lookup (cid : Cid) (err : Releases.StoreError)
  | noMatch (cid : Cid) (rid : RepoId)
  | redacted (cid : Cid) (redactions : BTreeMap Did String)
  | untrustedAuthor (cid : Cid) (author : Did)
  | untrustedCreator (cid : Cid) (creator : Did)

/-- `2` when the check ran and the bytes are not trustworthy, `1` when the check
could not be made at all. -/
def VerifyError.exitCode : VerifyError → ℤ
  | .noMatch _ _ | .redacted _ _ | .untrustedAuthor _ _ | .untrustedCreator _ _ => 2
  | .computeCid _ | .lookup _ _ => 1

/-- One release that registers the verified CID. -/
structure VerifyMatch where
  releaseId : ReleaseId
  oid : Oid
  tagName : Option String
  name : String
  author : Did
  authorAlias : Option String
  delegate : Bool
  attestations : List Did

structure VerifyReceipt where
  cid : Cid
  verified : Bool
  matched : List VerifyMatch

structure VerifyFailure where
  cid : Cid
  verified : Bool
  reason : String
  message : String
  redactions : BTreeMap Did String

/-- What the command leaves on standard output. -/
inductive Printed where
  | pretty (receipt : VerifyReceipt)
  | receipt (receipt : VerifyReceipt)
  | failure (failure : VerifyFailure)

/-- The output and the result of one run of the command. -/
structure Report where
  printed : Option Printed
  result : Except VerifyError Unit

/-- What the command reads besides its arguments: the file system, the
repository, the local profile and the terminal. -/
structure VerifyContext where
  computeCidFromPath : String → Except ComputeCid Cid
  findByCid : Cid → Except Releases.StoreError (List (ReleaseId × Release))
  delegates : BTreeSet Did
  localDid : Did
  rid : RepoId
  aliases : Did → Option String
  tagName : Oid → Option String
  isTerminal : Bool
  cidText : Cid → String
  didText : Did → String
  ridText : RepoId → String

namespace VerifyContext

variable (context : VerifyContext)

/-- `Display` of the error. -/
def message : VerifyError → String
  | .computeCid .io => "failed to compute CID from path"
  | .computeCid (.protocol err) => err.message
  | .lookup cid _ => "failed to look up CID " ++ context.cidText cid
  | .noMatch cid rid =>
      "no artifact with CID " ++ context.cidText cid ++
        " is registered in any release of " ++ context.ridText rid
  | .redacted cid redactions =>
      "artifact " ++ context.cidText cid ++ " has been redacted by a trusted party:\n" ++
        "\n".intercalate (redactions.toList.map fun entry =>
          "  " ++ context.didText entry.1 ++ ": " ++ entry.2)
  | .untrustedAuthor cid author =>
      "artifact " ++ context.cidText cid ++ " is only registered by " ++
        context.didText author ++ ", who is not a repository delegate\n" ++
        "  hint: pass --all-authors to accept it anyway"
  | .untrustedCreator cid creator =>
      "artifact " ++ context.cidText cid ++ " is only in releases created by " ++
        context.didText creator ++ ", who is not a repository delegate\n" ++
        "  hint: pass --all-authors to accept it anyway"

/-- The payload for a rejection, or `none` when there is no verdict to report. -/
def verifyFailure (cid : Cid) (err : VerifyError) : Option VerifyFailure :=
  match err with
  | .noMatch _ _ => some ⟨cid, false, "noMatch", context.message err, ∅⟩
  | .redacted _ redactions =>
      some ⟨cid, false, "redacted", context.message err, redactions⟩
  | .untrustedCreator _ _ =>
      some ⟨cid, false, "untrustedCreator", context.message err, ∅⟩
  | .untrustedAuthor _ _ =>
      some ⟨cid, false, "untrustedAuthor", context.message err, ∅⟩
  | _ => none

/-- Pick which failure to report when no candidate verified: a redaction
outranks everything else. -/
def rejection (untrusted : List Trust.Untrusted) (cid : Cid) : VerifyError :=
  match untrusted.findSome? fun
    | .redacted redactions => some redactions
    | _ => none with
  | some redactions => .redacted cid redactions
  | none =>
      match untrusted.head? with
      | some (.creator creator) => .untrustedCreator cid creator
      | some (.author author) => .untrustedAuthor cid author
      | _ => .noMatch cid context.rid

def usePretty (command : Verify) : Bool :=
  if command.json then false else if command.pretty then true else context.isTerminal

def trust : Trust := ⟨context.delegates, some context.localDid⟩

def verifyMatch (id : ReleaseId) (release : Release) (artifact : Artifact) :
    VerifyMatch where
  releaseId := id
  oid := release.oid
  tagName := release.tag.bind context.tagName
  name := artifact.name
  author := artifact.author
  authorAlias := context.aliases artifact.author
  delegate := artifact.author ∈ context.delegates
  attestations := artifact.attestations.toList

/-- Sort the candidates into matches and rejections.  `none` is the panic on a
candidate that does not hold the CID. -/
def judge (scope : Trust.Scope) (cid : Cid) :
    List (ReleaseId × Release) → Option (List VerifyMatch × List Trust.Untrusted)
  | [] => some ([], [])
  | (id, release) :: candidates => do
      let artifact ← release.artifact cid
      let (matched, untrusted) ← judge scope cid candidates
      match context.trust.check scope release artifact with
      | .ok () => return (context.verifyMatch id release artifact :: matched, untrusted)
      | .error reason => return (matched, reason :: untrusted)

/-- The command with the scope its flags select. -/
def verifyIn (scope : Trust.Scope) (command : Verify) : Option Report :=
  match context.computeCidFromPath command.path with
  | .error err => some ⟨none, .error (.computeCid err)⟩
  | .ok cid =>
      match context.findByCid cid with
      | .error err => some ⟨none, .error (.lookup cid err)⟩
      | .ok candidates => do
          let (matched, untrusted) ← context.judge scope cid candidates
          if matched.isEmpty then
            let err := context.rejection untrusted cid
            if context.usePretty command then return ⟨none, .error err⟩
            return ⟨(context.verifyFailure cid err).map .failure, .error err⟩
          let receipt : VerifyReceipt := ⟨cid, true, matched⟩
          if context.usePretty command then return ⟨some (.pretty receipt), .ok ()⟩
          return ⟨some (.receipt receipt), .ok ()⟩

end VerifyContext

/-- The scope for `--all-authors`. -/
def scope (allAuthors : Bool) : Trust.Scope :=
  if allAuthors then .all else .trusted

def runVerify (context : VerifyContext) (command : Verify) : Option Report :=
  context.verifyIn (scope command.allAuthors) command

/-- The command ends with exit code 0. -/
def Succeeds (outcome : Option Report) : Prop :=
  ∃ report, outcome = some report ∧ report.result = .ok ()

namespace VerifyContext

variable (context : VerifyContext)

/-- Candidates that hold the CID never panic, and none matches exactly when
every one is rejected. -/
theorem judge_of_holding (scope : Trust.Scope) {cid : Cid}
    {candidates : List (ReleaseId × Release)}
    (hholding : ∀ entry ∈ candidates, (entry.2.artifact cid).isSome) :
    ∃ matched untrusted, context.judge scope cid candidates = some (matched, untrusted) ∧
      (matched = [] ↔ ∀ entry ∈ candidates, ∀ artifact,
        entry.2.artifact cid = some artifact →
          context.trust.check scope entry.2 artifact ≠ .ok ()) := by
  induction candidates with
  | nil => exact ⟨[], [], rfl, by simp⟩
  | cons candidate candidates ih =>
      obtain ⟨id, release⟩ := candidate
      obtain ⟨matched, untrusted, hjudge, hmatched⟩ :=
        ih fun entry hentry => hholding entry (List.mem_cons_of_mem _ hentry)
      obtain ⟨artifact, hartifact⟩ := Option.isSome_iff_exists.mp (hholding (id, release) (by simp))
      cases hcheck : context.trust.check scope release artifact with
      | ok value =>
          refine ⟨context.verifyMatch id release artifact :: matched, untrusted, ?_, ?_⟩
          · simp [judge, hartifact, hjudge, hcheck]
          · simp [hartifact, hcheck]
      | error reason =>
          refine ⟨matched, reason :: untrusted, ?_, ?_⟩
          · simp [judge, hartifact, hjudge, hcheck]
          · simp [hartifact, hcheck, hmatched]

variable {context} {command : Verify} {cid : Cid}
  {releases candidates : List (ReleaseId × Release)}

/-- The command succeeds exactly when some release holds an artifact under the
CID of the file that passes the check. -/
theorem succeeds_verifyIn_iff (scope : Trust.Scope)
    (hfile : context.computeCidFromPath command.path = .ok cid)
    (hlookup : context.findByCid cid = .ok candidates)
    (hcandidates :
      candidates.Perm (releases.filter fun entry => (entry.2.artifact cid).isSome)) :
    Succeeds (context.verifyIn scope command) ↔
      ∃ entry ∈ releases, ∃ artifact, entry.2.artifact cid = some artifact ∧
        context.trust.check scope entry.2 artifact = .ok () := by
  have hmem : ∀ entry, entry ∈ candidates ↔
      entry ∈ releases ∧ (entry.2.artifact cid).isSome := by
    intro entry
    rw [hcandidates.mem_iff, List.mem_filter]
  obtain ⟨matched, untrusted, hjudge, hmatched⟩ :=
    context.judge_of_holding scope fun entry hentry => ((hmem entry).mp hentry).2
  have houtcome : Succeeds (context.verifyIn scope command) ↔ matched ≠ [] := by
    rw [Succeeds, verifyIn, hfile]
    simp only [hlookup, hjudge, Option.bind_eq_bind, Option.bind_some]
    cases matched with
    | nil => cases hpretty : context.usePretty command <;> simp
    | cons found matched => cases hpretty : context.usePretty command <;> simp
  rw [houtcome, ne_eq, hmatched]
  push Not
  constructor
  · rintro ⟨entry, hentry, artifact, hartifact, hcheck⟩
    exact ⟨entry, ((hmem entry).mp hentry).1, artifact, hartifact, hcheck⟩
  · rintro ⟨entry, hentry, artifact, hartifact, hcheck⟩
    exact ⟨entry, (hmem entry).mpr ⟨hentry, by simp [hartifact]⟩, artifact, hartifact,
      hcheck⟩

/-- Some release whose creator is in scope holds an artifact under `cid` that a
delegate has redacted. -/
def DelegateRedacted (context : VerifyContext) (scope : Trust.Scope)
    (releases : List (ReleaseId × Release)) (cid : Cid) : Prop :=
  ∃ entry ∈ releases, context.trust.admits scope entry.2.creator ∧
    ∃ artifact, entry.2.artifact cid = some artifact ∧
      ∃ delegate ∈ context.delegates, artifact.isRedactedBy delegate

/-- Every artifact under `cid` whose release creator and author are in scope has
been redacted by its author or a delegate. -/
def EveryCopyWithdrawn (context : VerifyContext) (scope : Trust.Scope)
    (releases : List (ReleaseId × Release)) (cid : Cid) : Prop :=
  ∀ entry ∈ releases, ∀ artifact, entry.2.artifact cid = some artifact →
    context.trust.admits scope entry.2.creator →
      context.trust.admits scope artifact.author →
        Trust.Withdrawn artifact context.delegates

/-- A redaction by a delegate keeps the file from verifying exactly when every
copy in scope is withdrawn: one clean copy elsewhere outweighs it. -/
theorem redacted_file_fails_iff (context : VerifyContext) (command : Verify)
    (scope : Trust.Scope) (cid : Cid) (releases candidates : List (ReleaseId × Release))
    (hfile : context.computeCidFromPath command.path = .ok cid)
    (hlookup : context.findByCid cid = .ok candidates)
    (hcandidates :
      candidates.Perm (releases.filter fun entry => (entry.2.artifact cid).isSome)) :
    (context.DelegateRedacted scope releases cid →
        ¬ Succeeds (context.verifyIn scope command)) ↔
      (context.DelegateRedacted scope releases cid →
        context.EveryCopyWithdrawn scope releases cid) := by
  refine imp_congr_right fun _ => ?_
  rw [succeeds_verifyIn_iff scope hfile hlookup hcandidates]
  simp only [Trust.check_eq_ok_iff, EveryCopyWithdrawn, not_exists, not_and, not_not]
  rfl

/-- A context whose one file has the CID `cid`, registered in `releases`. -/
def ofReleases (delegate : Did) (cid : Cid) (releases : List (ReleaseId × Release)) :
    VerifyContext where
  computeCidFromPath _ := .ok cid
  findByCid _ := .ok releases
  delegates := {delegate}
  localDid := .filled 32 2
  rid := .filled 20 3
  aliases _ := none
  tagName _ := none
  isTerminal := false
  cidText _ := "bafkr4iaha4dqobyha4dqobyha4dqobyha4dqobyha4dqobyha4dqobyha4"
  didText _ := "did:key:z6MkeXBLjYiSvqnhFb6D7sHm8yKm4jV45wwBFRaatf1cfZ76"
  ridText _ := "rad:z3S9hEB66TqZ8Ubncq1FwwuVH4dp"

/-- The only copy of the file is redacted by the delegate who registered it. -/
theorem redacted_file_fails_when_only_copy :
    let delegate : Did := .filled 32 1
    let cid := blake3HashToCid (.filled 32 7) .blob
    let withdrawn := (Release.new (.filled 20 1) none delegate 5).run
      [⟨delegate, .registerArtifact cid "app"⟩, ⟨delegate, .redact cid "compromised"⟩]
    let context := ofReleases delegate cid [(.filled 20 11, withdrawn)]
    ¬ Succeeds (context.verifyIn .trusted ⟨"app", false, false, true⟩) := by
  intro delegate cid withdrawn context
  have hartifact : withdrawn.artifact cid =
      some ((Artifact.register delegate "app").redact delegate "compromised") := rfl
  have hdelegate : delegate ∈ context.delegates := by decide
  refine (redacted_file_fails_iff context ⟨"app", false, false, true⟩ .trusted cid
    [(.filled 20 11, withdrawn)] [(.filled 20 11, withdrawn)] rfl rfl
    (by simp [hartifact])).mpr (fun _ => ?_) ?_
  · intro entry hentry artifact hcopy _ _
    obtain rfl := List.mem_singleton.mp hentry
    obtain rfl := Option.some.inj (hartifact.symm.trans hcopy)
    exact ⟨delegate, Or.inr hdelegate, by simp⟩
  · exact ⟨_, List.mem_singleton_self _, by decide, _, hartifact, delegate, hdelegate,
      by simp⟩

/-- A delegate redacts the file in one release and leaves it in another: the
file verifies. -/
theorem clean_copy_outweighs_redaction :
    let delegate : Did := .filled 32 1
    let cid := blake3HashToCid (.filled 32 7) .blob
    let withdrawn := (Release.new (.filled 20 1) none delegate 5).run
      [⟨delegate, .registerArtifact cid "app"⟩, ⟨delegate, .redact cid "compromised"⟩]
    let clean := (Release.new (.filled 20 2) none delegate 6).run
      [⟨delegate, .registerArtifact cid "app"⟩]
    let releases := [(.filled 20 11, withdrawn), (.filled 20 12, clean)]
    let context := ofReleases delegate cid releases
    context.DelegateRedacted .trusted releases cid ∧
      Succeeds (runVerify context ⟨"app", false, false, true⟩) := by
  intro delegate cid withdrawn clean releases context
  have hwithdrawn : withdrawn.artifact cid =
      some ((Artifact.register delegate "app").redact delegate "compromised") := rfl
  have hclean : clean.artifact cid = some (Artifact.register delegate "app") := rfl
  have hdelegate : delegate ∈ context.delegates := by decide
  refine ⟨⟨_, List.mem_cons_self, by decide, _, hwithdrawn, delegate, hdelegate, by simp⟩,
    ?_⟩
  have hcandidates : releases.Perm
      (releases.filter fun entry => (entry.2.artifact cid).isSome) := by
    simp [releases, hwithdrawn, hclean]
  refine (succeeds_verifyIn_iff .trusted rfl rfl hcandidates).mpr
    ⟨(.filled 20 12, clean), by simp [releases], _, hclean, ?_⟩
  refine Trust.check_eq_ok_iff.mpr ⟨by decide, by decide, ?_⟩
  rintro ⟨did, -, hredacted⟩
  simp [Artifact.isRedactedBy, Artifact.register] at hredacted

end VerifyContext

end RadicleArtifact.Cli
