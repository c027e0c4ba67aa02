import RadicleArtifact.Cob.Reducer

/-!
# Whose word counts

Trust is anchored in the delegate set of the repository.  Releases and
artifacts of a delegate or of the local user count, a redaction by the
artifact's own author or by a delegate withdraws it, and the same parties
decide its metadata.
-/

namespace RadicleArtifact

open RadicleArtifact.Core
open RadicleArtifact.Library
open RadicleArtifact.Cob

/-- Whose releases and artifacts the repository trusts: its delegates and the
local user, who always trusts their own work. -/
structure Trust where
  delegates : BTreeSet Did
  localDid : Option Did

namespace Trust

/-- Why `check` rejects an artifact in a release. -/
inductive Untrusted where
  | redacted (redactions : BTreeMap Did String)
  | creator (did : Did)
  | author (did : Did)

/-- Which side of the trust line to accept. -/
inductive Scope where
  | trusted
  | untrusted
  | all
  deriving DecidableEq

def Scope.admits (scope : Scope) (isTrusted : Bool) : Bool :=
  match scope with
  | .trusted => isTrusted
  | .untrusted => !isTrusted
  | .all => true

/-- Only these parties' redactions and metadata writes take effect. -/
def isAuthorOrDelegate (did author : Did) (delegates : BTreeSet Did) : Bool :=
  did = author || did ∈ delegates

/-- The redactions of an artifact that withdraw it. -/
def withdrawals (artifact : Artifact) (delegates : BTreeSet Did) : BTreeMap Did String :=
  BTreeMap.collect <| artifact.redactions.toList.filter fun entry =>
    isAuthorOrDelegate entry.1 artifact.author delegates

/-- What a metadata write leaves under its key. -/
def writtenValue : MetadataWrite → Option JsonValue
  | .set value => some value
  | .removed => none

/-- The metadata of an artifact that holds: for each key, the last write from
its author or a delegate. -/
def metadata (artifact : Artifact) (delegates : BTreeSet Did) :
    BTreeMap String JsonValue :=
  BTreeMap.collect <| artifact.metadata.toList.filterMap fun entry =>
    ((entry.2.entries.reverse.find? fun write =>
      isAuthorOrDelegate write.1 artifact.author delegates).bind fun write =>
        writtenValue write.2).map (entry.1, ·)

def trusts (trust : Trust) (did : Did) : Bool :=
  did ∈ trust.delegates || trust.localDid = some did

def admits (trust : Trust) (scope : Scope) (did : Did) : Bool :=
  scope.admits (trust.trusts did)

def checkBy (trust : Trust) (scope : Scope) (creator : Did) (artifact : Artifact) :
    Except Untrusted Unit :=
  if !trust.admits scope creator then .error (.creator creator)
  -- A redaction from a passing stranger must not block the check.
  else if !(withdrawals artifact trust.delegates).isEmpty then
    .error (.redacted (withdrawals artifact trust.delegates))
  else if !trust.admits scope artifact.author then .error (.author artifact.author)
  else .ok ()

/-- The release creator and the artifact author must both fall in `scope`, and
neither the author nor a delegate may have redacted the artifact. -/
def check (trust : Trust) (scope : Scope) (release : Release) (artifact : Artifact) :
    Except Untrusted Unit :=
  trust.checkBy scope release.creator artifact

/-! ## What the checks decide -/

theorem trusts_iff {trust : Trust} {did : Did} :
    trust.trusts did = true ↔ did ∈ trust.delegates ∨ trust.localDid = some did := by
  simp [trusts]

@[simp]
theorem isAuthorOrDelegate_iff {did author : Did} {delegates : BTreeSet Did} :
    isAuthorOrDelegate did author delegates = true ↔ did = author ∨ did ∈ delegates := by
  simp [isAuthorOrDelegate]

theorem getElem?_withdrawals (artifact : Artifact) (delegates : BTreeSet Did)
    (did : Did) :
    (withdrawals artifact delegates)[did]? =
      (artifact.redactionBy did).filter fun _ =>
        isAuthorOrDelegate did artifact.author delegates :=
  BTreeMap.getElem?_collect_filter artifact.redactions
    (fun did _ => isAuthorOrDelegate did artifact.author delegates) did

/-- Whether the artifact's own author or a delegate has redacted it. -/
def Withdrawn (artifact : Artifact) (delegates : BTreeSet Did) : Prop :=
  ∃ did, (did = artifact.author ∨ did ∈ delegates) ∧ artifact.isRedactedBy did

theorem withdrawals_isEmpty_iff {artifact : Artifact} {delegates : BTreeSet Did} :
    (withdrawals artifact delegates).isEmpty = true ↔ ¬ Withdrawn artifact delegates := by
  have hread : (withdrawals artifact delegates).isEmpty = true ↔
      ∀ did : Did, (withdrawals artifact delegates)[did]? = none := by
    rw [Std.ExtTreeMap.isEmpty_iff, Std.ExtTreeMap.ext_getElem?_iff]
    simp
  simp only [hread, getElem?_withdrawals, Option.filter_eq_none_iff,
    isAuthorOrDelegate_iff, Withdrawn, Artifact.isRedactedBy_eq_isSome, not_exists,
    not_and, Option.isSome_iff_exists]
  exact forall_congr' fun did =>
    ⟨fun hnone hparty value hvalue => hnone value hvalue hparty,
      fun hnone value hvalue hparty => hnone hparty value hvalue⟩

theorem check_eq_ok_iff {trust : Trust} {scope : Scope} {release : Release}
    {artifact : Artifact} :
    trust.check scope release artifact = .ok () ↔
      trust.admits scope release.creator ∧ trust.admits scope artifact.author ∧
        ¬ Withdrawn artifact trust.delegates := by
  rw [← withdrawals_isEmpty_iff, check, checkBy]
  cases trust.admits scope release.creator <;>
    cases (withdrawals artifact trust.delegates).isEmpty <;>
      cases trust.admits scope artifact.author <;> simp

theorem getElem?_metadata (artifact : Artifact) (delegates : BTreeSet Did) (key : String) :
    (metadata artifact delegates)[key]? =
      (artifact.lastMetadataWrite
        (fun did => isAuthorOrDelegate did artifact.author delegates) key).bind
          writtenValue := by
  rw [metadata, BTreeMap.getElem?_collect_filterMap artifact.metadata
    (fun _ writes => (writes.entries.reverse.find? fun write =>
      isAuthorOrDelegate write.1 artifact.author delegates).bind fun write =>
        writtenValue write.2) key, Artifact.lastMetadataWrite, Artifact.metadataWrites]
  cases artifact.metadata[key]? with
  | none => rfl
  | some writes => simp [Option.bind_map]

end Trust

end RadicleArtifact
