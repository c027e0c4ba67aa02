import RadicleArtifact.Cob.Reducer

/-!
# What a replayed release says about its history

The state of an artifact has a meaning in terms of the history alone: who
registered it first, what each user wrote last, and who attested without ever
redacting.  The writes below name, for each component of the state, the actions
that set it.
-/

namespace RadicleArtifact.Cob

open RadicleArtifact.Core
open RadicleArtifact.Library

namespace SignedAction

/-- The name a registration by `author` gives the artifact. -/
def nameWrite (cid : Cid) (author : Did) (entry : SignedAction) : Option String :=
  if entry.user = author then entry.registeredName cid else none

/-- Whether an action by `user` adds (`true`) or removes (`false`) the URL. -/
def locationWrite (cid : Cid) (user : Did) (url : Url) (entry : SignedAction) :
    Option Bool :=
  if entry.user = user then
    match entry.action with
    | .addLocation named location =>
        if named = cid ∧ location = url then some true else none
    | .removeLocation named location =>
        if named = cid ∧ location = url then some false else none
    | _ => none
  else none

/-- The reason of a redaction by `user`. -/
def redactWrite (cid : Cid) (user : Did) (entry : SignedAction) : Option String :=
  if entry.user = user then
    match entry.action with
    | .redact named reason => if named = cid then some reason else none
    | _ => none
  else none

def attests (cid : Cid) (user : Did) (entry : SignedAction) : Bool :=
  match entry.action with
  | .attest named => named = cid ∧ entry.user = user
  | _ => false

end SignedAction

namespace Artifact

/-! ## One step, component by component -/

theorem name_observe (cid : Cid) (artifact : Artifact) (entry : SignedAction) :
    (artifact.observe cid entry).name =
      (entry.nameWrite cid artifact.author).getD artifact.name := by
  obtain ⟨user, action⟩ := entry
  rw [SignedAction.nameWrite]
  cases action with
  | registerArtifact named name =>
      rw [observe]
      by_cases hnamed : named = cid <;> by_cases hauthor : artifact.author = user <;>
        simp [Action.cid?, SignedAction.registeredName, apply, hnamed, hauthor,
          @eq_comm _ user artifact.author]
  | attest named =>
      simp only [SignedAction.registeredName, ite_self, Option.getD_none]
      apply read_observe Artifact.name
      exact read_attest Artifact.name fun _ => rfl
  | _ =>
      simp only [SignedAction.registeredName, ite_self, Option.getD_none]
      exact read_observe Artifact.name rfl

theorem hasLocation_observe (cid : Cid) (artifact : Artifact) (entry : SignedAction)
    (user : Did) (url : Url) :
    (artifact.observe cid entry).hasLocation user url =
      (entry.locationWrite cid user url).getD (artifact.hasLocation user url) := by
  obtain ⟨signer, action⟩ := entry
  rw [SignedAction.locationWrite]
  cases action with
  | addLocation named location | removeLocation named location =>
      rw [observe]
      by_cases hnamed : named = cid <;> by_cases hsigner : signer = user <;>
        by_cases hurl : location = url <;>
          simp [Action.cid?, apply, hnamed, hsigner, hurl, @eq_comm _ user signer,
            @eq_comm _ url location]
  | registerArtifact named name =>
      simp only [ite_self, Option.getD_none]
      apply read_observe (hasLocation · user url)
      exact read_apply_register (hasLocation · user url) fun _ => rfl
  | attest named =>
      simp only [ite_self, Option.getD_none]
      apply read_observe (hasLocation · user url)
      exact read_attest (hasLocation · user url) fun _ => rfl
  | _ =>
      simp only [ite_self, Option.getD_none]
      exact read_observe (hasLocation · user url) rfl

theorem redactionBy_observe (cid : Cid) (artifact : Artifact) (entry : SignedAction)
    (user : Did) :
    (artifact.observe cid entry).redactionBy user =
      (entry.redactWrite cid user).or (artifact.redactionBy user) := by
  obtain ⟨signer, action⟩ := entry
  rw [SignedAction.redactWrite]
  cases action with
  | redact named reason =>
      rw [observe]
      by_cases hnamed : named = cid <;> by_cases hsigner : signer = user <;>
        simp [Action.cid?, apply, hnamed, hsigner, @eq_comm _ user signer]
  | registerArtifact named name =>
      simp only [ite_self, Option.none_or]
      apply read_observe (redactionBy · user)
      exact read_apply_register (redactionBy · user) fun _ => rfl
  | attest named =>
      simp only [ite_self, Option.none_or]
      apply read_observe (redactionBy · user)
      exact read_attest (redactionBy · user) fun _ => rfl
  | _ =>
      simp only [ite_self, Option.none_or]
      exact read_observe (redactionBy · user) rfl

theorem isAttestedBy_observe (cid : Cid) (artifact : Artifact) (entry : SignedAction)
    (user : Did) :
    (artifact.observe cid entry).isAttestedBy user =
      ((entry.attests cid user && artifact.canAttest user) ||
        ((entry.redactWrite cid user).isNone && artifact.isAttestedBy user)) := by
  obtain ⟨signer, action⟩ := entry
  rw [SignedAction.redactWrite, SignedAction.attests]
  cases action with
  | redact named reason | attest named =>
      rw [observe]
      by_cases hnamed : named = cid <;> by_cases hsigner : signer = user <;>
        simp [Action.cid?, apply, hnamed, hsigner, @eq_comm _ user signer]
  | registerArtifact named name =>
      simp only [ite_self, Option.isNone_none, Bool.true_and, Bool.false_and,
        Bool.false_or]
      apply read_observe (isAttestedBy · user)
      exact read_apply_register (isAttestedBy · user) fun _ => rfl
  | _ =>
      simp only [ite_self, Option.isNone_none, Bool.true_and, Bool.false_and,
        Bool.false_or]
      exact read_observe (isAttestedBy · user) rfl

/-! ## Whole histories -/

section Run

variable (cid : Cid) (artifact : Artifact) (later : List SignedAction)

theorem author_foldl_observe :
    (later.foldl (observe cid) artifact).author = artifact.author := by
  induction later generalizing artifact with
  | nil => rfl
  | cons entry later ih => rw [List.foldl_cons, ih, author_observe]

theorem name_foldl_observe :
    (later.foldl (observe cid) artifact).name =
      (lastWrite (SignedAction.nameWrite cid artifact.author) later).getD
        artifact.name :=
  read_foldl_eq_lastWrite (observe cid) name
    (SignedAction.nameWrite cid artifact.author)
    (fun current => current.author = artifact.author)
    (fun current entry hcurrent => by rw [author_observe, hcurrent])
    (fun current entry hcurrent => by rw [name_observe, hcurrent]) later artifact rfl

theorem hasLocation_foldl_observe (user : Did) (url : Url) :
    (later.foldl (observe cid) artifact).hasLocation user url =
      (lastWrite (SignedAction.locationWrite cid user url) later).getD
        (artifact.hasLocation user url) :=
  read_foldl_eq_lastWrite (observe cid) (fun current => current.hasLocation user url)
    (SignedAction.locationWrite cid user url) (fun _ => True) (fun _ _ _ => trivial)
    (fun current entry _ => hasLocation_observe cid current entry user url) later
    artifact trivial

theorem redactionBy_foldl_observe (user : Did) :
    (later.foldl (observe cid) artifact).redactionBy user =
      (lastWrite (SignedAction.redactWrite cid user) later).or
        (artifact.redactionBy user) :=
  read_foldl_eq_lastWrite_or (observe cid) (fun current => current.redactionBy user)
    (SignedAction.redactWrite cid user)
    (fun current entry => redactionBy_observe cid current entry user) later artifact

/-- An attestation counts unless its user is the author or redacts, before or
after attesting. -/
theorem isAttestedBy_foldl_register (author : Did) (name : String) (user : Did) :
    (later.foldl (observe cid) (register author name)).isAttestedBy user = true ↔
      (∃ entry ∈ later, entry.attests cid user) ∧ user ≠ author ∧
        ∀ entry ∈ later, entry.redactWrite cid user = none := by
  induction later using List.reverseRecOn with
  | nil => simp [isAttestedBy, register]
  | append_singleton earlier entry ih =>
      have hcan : (earlier.foldl (observe cid) (register author name)).canAttest user ↔
          user ≠ author ∧ ∀ entry ∈ earlier, entry.redactWrite cid user = none := by
        rw [canAttest_iff, redactionBy_foldl_observe, author_foldl_observe,
          ← lastWrite_eq_none_iff]
        simp [register, redactionBy]
      rw [List.foldl_append, List.foldl_cons, List.foldl_nil, isAttestedBy_observe,
        Bool.or_eq_true, Bool.and_eq_true, Bool.and_eq_true, hcan, ih]
      have hattests : entry.attests cid user = true →
          entry.redactWrite cid user = none := by
        cases haction : entry.action <;>
          simp [SignedAction.attests, SignedAction.redactWrite, haction]
      simp only [List.mem_append, List.mem_singleton, or_imp, forall_and, forall_eq,
        Option.isNone_iff_eq_none]
      constructor
      · rintro (⟨hentry, hauthor, hnone⟩ | ⟨hentry, ⟨other, hother, hattest⟩, hauthor, hnone⟩)
        · exact ⟨⟨entry, Or.inr rfl, hentry⟩, hauthor, hnone, hattests hentry⟩
        · exact ⟨⟨other, Or.inl hother, hattest⟩, hauthor, hnone, hentry⟩
      · rintro ⟨⟨other, hother | rfl, hattest⟩, hauthor, hnone, hentry⟩
        · exact Or.inr ⟨hentry, ⟨other, hother, hattest⟩, hauthor, hnone⟩
        · exact Or.inl ⟨hattest, hauthor, hnone⟩

end Run

/-- What the state of an artifact says about the actions from its first
registration on. -/
structure Reflects (artifact : Artifact) (cid : Cid) (first : SignedAction)
    (later : List SignedAction) : Prop where
  author : artifact.author = first.user
  name : lastWrite (SignedAction.nameWrite cid first.user) (first :: later) =
    some artifact.name
  locations : ∀ user url, artifact.hasLocation user url = true ↔
    lastWrite (SignedAction.locationWrite cid user url) later = some true
  redactions : ∀ user, artifact.redactionBy user =
    lastWrite (SignedAction.redactWrite cid user) later
  attestations : ∀ user, artifact.isAttestedBy user = true ↔
    (∃ entry ∈ later, entry.attests cid user) ∧ user ≠ first.user ∧
      ∀ entry ∈ later, entry.redactWrite cid user = none

theorem reflects_foldl_register {cid : Cid} {first : SignedAction} {name : String}
    (hname : first.registeredName cid = some name) (later : List SignedAction) :
    (later.foldl (observe cid) (register first.user name)).Reflects cid first later where
  author := author_foldl_observe cid _ later
  name := by
    have hfirst : first.nameWrite cid first.user = some name := by
      rw [SignedAction.nameWrite, if_pos rfl, hname]
    rw [name_foldl_observe, lastWrite_cons, hfirst, register]
    cases lastWrite (SignedAction.nameWrite cid first.user) later <;> rfl
  locations user url := by
    rw [hasLocation_foldl_observe]
    cases lastWrite (SignedAction.locationWrite cid user url) later <;>
      simp [hasLocation, locationsOf, register]
  redactions user := by
    rw [redactionBy_foldl_observe]
    simp [redactionBy, register]
  attestations := isAttestedBy_foldl_register cid later first.user name

end Artifact

namespace Release

/-- Where some action of a history registers `cid`, one does so first. -/
theorem exists_first_registration {cid : Cid} {entries : List SignedAction}
    (hregistered : ∃ entry ∈ entries, ∃ name, entry.registeredName cid = some name) :
    ∃ earlier first later name, entries = earlier ++ first :: later ∧
      first.registeredName cid = some name ∧
      ∀ entry ∈ earlier, entry.registeredName cid = none := by
  simp only [← Option.isSome_iff_exists] at hregistered
  obtain ⟨earlier, first, later, rfl, hkind, hfirst⟩ :=
    exists_first_of_mem
      (fun entry : SignedAction => (entry.registeredName cid).isSome = true) hregistered
  obtain ⟨name, hname⟩ := Option.isSome_iff_exists.mp hkind
  exact ⟨earlier, first, later, name, rfl, hname, by simpa using hfirst⟩

/-- A slot is filled exactly when some action of the history registers it. -/
theorem exists_artifact_run_iff {release : Release} {cid : Cid}
    (habsent : release.artifact cid = none) (history : List SignedAction) :
    (∃ artifact, (release.run history).artifact cid = some artifact) ↔
      ∃ entry ∈ history, ∃ name, entry.registeredName cid = some name := by
  constructor
  · rintro ⟨artifact, hartifact⟩
    by_contra hnone
    push Not at hnone
    have hempty : (release.run history).artifact cid = none :=
      artifact_run_of_none habsent fun entry hentry =>
        Option.eq_none_iff_forall_ne_some.mpr (hnone entry hentry)
    simp [hempty] at hartifact
  · intro hsome
    obtain ⟨earlier, first, later, name, rfl, hname, hfirst⟩ :=
      exists_first_registration hsome
    exact ⟨_, artifact_run_of_first habsent hname hfirst⟩

theorem exists_artifact_replay_iff {commit : Oid → Except String Unit} {root : Op}
    {ops : List Op} {release : Release} (hreplay : replay commit root ops = .ok release)
    (cid : Cid) :
    (∃ artifact, release.artifact cid = some artifact) ↔
      ∃ entry ∈ history root ops, ∃ name, entry.registeredName cid = some name := by
  obtain ⟨oid, tag, actions, -, -, rfl⟩ := replay_eq_ok_iff.mp hreplay
  exact exists_artifact_run_iff
    (artifact_new oid tag root.author root.timestamp cid) _

/-- The artifact a replay leaves under `cid`, by any split of the history at the
first registration. -/
theorem artifact_replay_of_first {commit : Oid → Except String Unit} {root : Op}
    {ops : List Op} {release : Release} (hreplay : replay commit root ops = .ok release)
    {cid : Cid} {earlier later : List SignedAction} {first : SignedAction} {name : String}
    (hhistory : history root ops = earlier ++ first :: later)
    (hname : first.registeredName cid = some name)
    (hfirst : ∀ entry ∈ earlier, entry.registeredName cid = none) :
    release.artifact cid =
      some (later.foldl (Artifact.observe cid) (Artifact.register first.user name)) := by
  obtain ⟨oid, tag, actions, -, -, rfl⟩ := replay_eq_ok_iff.mp hreplay
  rw [hhistory]
  exact artifact_run_of_first (artifact_new oid tag root.author root.timestamp cid) hname
    hfirst

/-- The meaning of a replayed release over its history: an artifact exists
exactly when it was registered, and its state reflects the actions from the
first registration on. -/
theorem replay_reflects_history (commit : Oid → Except String Unit) (root : Op)
    (ops : List Op) (release : Release) (hreplay : replay commit root ops = .ok release)
    (cid : Cid) :
    ((∃ artifact, release.artifact cid = some artifact) ↔
      ∃ entry ∈ history root ops, ∃ name, entry.registeredName cid = some name) ∧
    ∀ earlier first later name, history root ops = earlier ++ first :: later →
      first.registeredName cid = some name →
      (∀ entry ∈ earlier, entry.registeredName cid = none) →
        ∃ artifact, release.artifact cid = some artifact ∧
          artifact.Reflects cid first later := by
  refine ⟨exists_artifact_replay_iff hreplay cid, ?_⟩
  intro earlier first later name hhistory hname hfirst
  exact ⟨_, artifact_replay_of_first hreplay hhistory hname hfirst,
    Artifact.reflects_foldl_register hname later⟩

/-- A registration by one user and an attestation by another. -/
theorem replay_reflects_registration_and_attestation :
    let author : Did := .filled 32 1
    let cid := blake3HashToCid (.filled 32 7) .blob
    let register : SignedAction := ⟨author, .registerArtifact cid "app"⟩
    let attest : SignedAction := ⟨.filled 32 2, .attest cid⟩
    ∃ artifact, ((Release.new (.filled 20 0) none author 5).run
        [register, attest]).artifact cid = some artifact ∧
      artifact.Reflects cid register [attest] := by
  intro author cid register attest
  let root : Op :=
    ⟨author, [.create (.filled 20 0) none, .registerArtifact cid "app"], 5⟩
  let endorsement : Op := ⟨.filled 32 2, [.attest cid], 6⟩
  refine (replay_reflects_history (fun _ => .ok ()) root [endorsement] _ rfl cid).2
    [] register [attest] "app" rfl ?_ (by simp)
  simp [SignedAction.registeredName, register]

end Release

end RadicleArtifact.Cob
