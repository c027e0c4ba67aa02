import RadicleArtifact.Cob.Release
import RadicleArtifact.Library.History

/-!
# The reducer, one artifact at a time

An action touches at most the artifact it names, and what it makes of that
artifact depends on nothing else in the release.  Replaying a history is
therefore, for each content identifier, a run of a small machine: the slot is
empty up to the first registration and an evolving artifact from there on.
Every law about releases below reduces to one step of that machine.
-/

namespace RadicleArtifact.Cob

open RadicleArtifact.Core
open RadicleArtifact.Library

/-! ## Readings of an artifact -/

namespace Artifact

/-- Whether `user` contributed `url`. -/
def hasLocation (artifact : Artifact) (user : Did) (url : Url) : Bool :=
  (artifact.locationsOf user).any fun urls => url ∈ urls

/-- The writes to a metadata key, oldest first. -/
def metadataWrites (artifact : Artifact) (key : String) : List (Did × MetadataWrite) :=
  (artifact.metadata[key]?).elim [] IndexMap.entries

theorem mem_metadataWrites_iff {artifact : Artifact} {key : String}
    {write : Did × MetadataWrite} :
    write ∈ artifact.metadataWrites key ↔
      ∃ writes, artifact.metadata[key]? = some writes ∧ write ∈ writes.entries := by
  rw [metadataWrites]
  cases artifact.metadata[key]? <;> simp

/-- The last write to a metadata key by a party that passes `authority`. -/
def lastMetadataWrite (artifact : Artifact) (authority : Did → Bool) (key : String) :
    Option MetadataWrite :=
  ((artifact.metadataWrites key).reverse.find? fun write => authority write.1).map
    Prod.snd

@[simp]
theorem locationsOf_addLocation (artifact : Artifact) (user : Did) (location : Url)
    (other : Did) :
    (artifact.addLocation user location).locationsOf other =
      if other = user then some (((artifact.locationsOf user).getD ∅).insert location)
      else artifact.locationsOf other := by
  simp only [locationsOf, addLocation, BTreeMap.getElem?_alter_eq_ite]

@[simp]
theorem locationsOf_removeLocation (artifact : Artifact) (user : Did) (location : Url)
    (other : Did) :
    (artifact.removeLocation user location).locationsOf other =
      if other = user then
        ((artifact.locationsOf user).map (·.erase location)).filter fun urls =>
          !urls.isEmpty
      else artifact.locationsOf other := by
  simp only [locationsOf, removeLocation, BTreeMap.getElem?_alter_eq_ite]

@[simp]
theorem hasLocation_addLocation (artifact : Artifact) (user : Did) (location : Url)
    (other : Did) (url : Url) :
    (artifact.addLocation user location).hasLocation other url =
      if other = user ∧ url = location then true
      else artifact.hasLocation other url := by
  rw [hasLocation, locationsOf_addLocation]
  by_cases hother : other = user
  · subst hother
    cases hurls : artifact.locationsOf other <;>
      by_cases hurl : url = location <;>
        simp [hasLocation, hurls, hurl, @eq_comm _ location url]
  · simp [hother, hasLocation]

@[simp]
theorem hasLocation_removeLocation (artifact : Artifact) (user : Did) (location : Url)
    (other : Did) (url : Url) :
    (artifact.removeLocation user location).hasLocation other url =
      if other = user ∧ url = location then false
      else artifact.hasLocation other url := by
  rw [hasLocation, locationsOf_removeLocation]
  by_cases hother : other = user
  · subst hother
    cases hurls : artifact.locationsOf other with
    | none => simp [hasLocation, hurls]
    | some urls =>
        by_cases hempty : (urls.erase location).isEmpty
        · have hrest : ∀ url, url ∈ urls → url = location := by
            intro url hurl
            by_contra hne
            have : url ∈ urls.erase location := by
              simp [hurl, @eq_comm _ location url, hne]
            simp [Std.ExtTreeSet.isEmpty_iff.mp hempty] at this
          by_cases hurl : url = location
          · simp [hempty, hurl]
          · have habsent : url ∉ urls := fun hmem => hurl (hrest url hmem)
            simp [hempty, hasLocation, hurls, hurl, habsent]
        · by_cases hurl : url = location <;>
            simp [hempty, hasLocation, hurls, hurl, @eq_comm _ location url]
  · simp [hother, hasLocation]

@[simp]
theorem redactionBy_redact (artifact : Artifact) (user : Did) (reason : String)
    (other : Did) :
    (artifact.redact user reason).redactionBy other =
      if other = user then some reason else artifact.redactionBy other := by
  simp only [redactionBy, redact, BTreeMap.getElem?_insert_eq_ite]

theorem isRedactedBy_eq_isSome (artifact : Artifact) (user : Did) :
    artifact.isRedactedBy user = (artifact.redactionBy user).isSome := by
  rw [isRedactedBy, redactionBy, Bool.eq_iff_iff, decide_eq_true_iff,
    Std.ExtTreeMap.isSome_getElem?_iff_mem]

theorem canAttest_iff {artifact : Artifact} {user : Did} :
    artifact.canAttest user = true ↔
      user ≠ artifact.author ∧ artifact.redactionBy user = none := by
  rw [canAttest, isRedactedBy_eq_isSome]
  simp

@[simp]
theorem isRedactedBy_redact (artifact : Artifact) (user : Did) (reason : String)
    (other : Did) :
    (artifact.redact user reason).isRedactedBy other =
      (decide (other = user) || artifact.isRedactedBy other) := by
  rw [isRedactedBy_eq_isSome, redactionBy_redact, isRedactedBy_eq_isSome]
  by_cases hother : other = user <;> simp [hother]

@[simp]
theorem isAttestedBy_redact (artifact : Artifact) (user : Did) (reason : String)
    (other : Did) :
    (artifact.redact user reason).isAttestedBy other =
      (decide (other ≠ user) && artifact.isAttestedBy other) := by
  rw [Bool.eq_iff_iff]
  simp [isAttestedBy, redact, @eq_comm _ user other]

@[simp]
theorem isAttestedBy_attest (artifact : Artifact) (user other : Did) :
    (artifact.attest user).isAttestedBy other =
      ((decide (other = user) && artifact.canAttest user) ||
        artifact.isAttestedBy other) := by
  rw [attest]
  split
  · rename_i hcan
    rw [Bool.eq_iff_iff]
    simp [isAttestedBy, hcan, @eq_comm _ user other]
  · rename_i hcannot
    simp [hcannot]

@[simp]
theorem metadataWrites_writeMetadata (artifact : Artifact) (user : Did) (key : String)
    (write : MetadataWrite) (wanted : String) :
    (artifact.writeMetadata user key write).metadataWrites wanted =
      if wanted = key then
        ((artifact.metadataWrites key).filter fun entry => entry.1 ≠ user) ++
          [(user, write)]
      else artifact.metadataWrites wanted := by
  simp only [metadataWrites, writeMetadata, BTreeMap.getElem?_alter_eq_ite]
  by_cases hkey : wanted = key
  · subst hkey
    cases artifact.metadata[wanted]? <;> simp
  · simp [hkey]

/-- A write moves to the end, so it is the last one exactly for the authorities
that admit its author. -/
@[simp]
theorem lastMetadataWrite_writeMetadata (artifact : Artifact) (authority : Did → Bool)
    (user : Did) (key : String) (write : MetadataWrite) (wanted : String) :
    (artifact.writeMetadata user key write).lastMetadataWrite authority wanted =
      if wanted = key ∧ authority user then some write
      else artifact.lastMetadataWrite authority wanted := by
  rw [lastMetadataWrite, metadataWrites_writeMetadata]
  by_cases hkey : wanted = key
  · subst hkey
    rw [if_pos rfl, List.reverse_append]
    by_cases huser : authority user
    · simp [huser]
    · have hfilter : ((artifact.metadataWrites wanted).filter fun entry =>
          entry.1 ≠ user).reverse.find? (fun write => authority write.1) =
            (artifact.metadataWrites wanted).reverse.find? fun write =>
              authority write.1 := by
        rw [← List.filter_reverse, List.find?_filter]
        congr 1
        funext entry
        by_cases hentry : entry.1 = user <;> simp [hentry, huser]
      simp only [List.reverse_singleton, List.singleton_append, List.find?_cons, huser,
        Bool.false_eq_true, and_false, if_false, lastMetadataWrite, hfilter]
  · simp [hkey, lastMetadataWrite]

/-! ## One step -/

/-- What an action makes of the registered artifact it names. -/
def apply (artifact : Artifact) (user : Did) : Action → Artifact
  | .create _ _ => artifact
  | .registerArtifact _ name =>
      if artifact.author = user then { artifact with name := name } else artifact
  | .addLocation _ location => artifact.addLocation user location
  | .removeLocation _ location => artifact.removeLocation user location
  | .attest _ => artifact.attest user
  | .redact _ reason => artifact.redact user reason
  | .setMetadata _ key value => artifact.writeMetadata user key (.set value)
  | .removeMetadata _ key => artifact.writeMetadata user key .removed

/-- What a signed action makes of the artifact registered under `cid`. -/
def observe (cid : Cid) (artifact : Artifact) (entry : SignedAction) : Artifact :=
  if entry.action.cid? = some cid then artifact.apply entry.user entry.action
  else artifact

@[simp]
theorem author_register (author : Did) (name : String) :
    (register author name).author = author := rfl

section Frame

variable {Value : Type} (read : Artifact → Value) {artifact : Artifact}

/-- Attesting changes nothing but the attestations. -/
theorem read_attest {user : Did}
    (hread : ∀ attestations,
      read { artifact with attestations := attestations } = read artifact) :
    read (artifact.attest user) = read artifact := by
  rw [attest]
  split
  · exact hread _
  · rfl

/-- Registering a registered artifact changes nothing but its name. -/
theorem read_apply_register {user : Did} {cid : Cid} {name : String}
    (hread : ∀ name, read { artifact with name := name } = read artifact) :
    read (artifact.apply user (.registerArtifact cid name)) = read artifact := by
  rw [apply]
  split
  · exact hread name
  · rfl

/-- What an action leaves alone stays as it was, also under another CID. -/
theorem read_observe {cid : Cid} {entry : SignedAction}
    (happly : read (artifact.apply entry.user entry.action) = read artifact) :
    read (artifact.observe cid entry) = read artifact := by
  rw [observe]
  split
  · exact happly
  · rfl

end Frame

@[simp]
theorem author_attest (artifact : Artifact) (user : Did) :
    (artifact.attest user).author = artifact.author :=
  read_attest author fun _ => rfl

@[simp]
theorem author_apply (artifact : Artifact) (user : Did) (action : Action) :
    (artifact.apply user action).author = artifact.author := by
  cases action with
  | registerArtifact cid name => exact read_apply_register author fun _ => rfl
  | attest cid => exact author_attest artifact user
  | _ => rfl

@[simp]
theorem author_observe (cid : Cid) (artifact : Artifact) (entry : SignedAction) :
    (artifact.observe cid entry).author = artifact.author :=
  read_observe author (author_apply artifact entry.user entry.action)

end Artifact

/-- The name under which a signed action registers `cid`, if it does. -/
def SignedAction.registeredName (cid : Cid) (entry : SignedAction) : Option String :=
  match entry.action with
  | .registerArtifact named name => if named = cid then some name else none
  | _ => none

namespace Release

/-- Some metadata key of some artifact holds a write of the value. -/
def HoldsValue (release : Release) (value : JsonValue) : Prop :=
  ∃ cid artifact key did, release.artifact cid = some artifact ∧
    (did, .set value) ∈ artifact.metadataWrites key

@[simp]
theorem artifact_new (oid : Oid) (tag : Option Oid) (creator : Did)
    (timestamp : Timestamp) (cid : Cid) :
    (Release.new oid tag creator timestamp).artifact cid = none := rfl

@[simp]
theorem artifact_withArtifact (release : Release) (cid wanted : Cid)
    (change : Artifact → Artifact) :
    (release.withArtifact cid change).artifact wanted =
      if wanted = cid then (release.artifact wanted).map change
      else release.artifact wanted :=
  IndexMap.get?_modify release.artifacts cid change wanted

/-- An action leaves every artifact it does not name as it was. -/
theorem artifact_action_of_unnamed (release : Release) (user : Did) {action : Action}
    {cid : Cid} (hunnamed : action.cid? ≠ some cid) :
    (release.action user action).artifact cid = release.artifact cid := by
  cases action with
  | create oid tag => rfl
  | registerArtifact named name =>
      have hother : ¬ cid = named := fun heq => hunnamed (congrArg some heq.symm)
      cases hslot : release.artifact named with
      | none =>
          have hinsert := IndexMap.get?_insert release.artifacts named
            (Artifact.register user name) cid
          rw [if_neg hother] at hinsert
          rw [action, hslot]
          exact hinsert
      | some existing =>
          by_cases hauthor : existing.author = user <;>
            simp [action, hslot, hauthor, hother]
  | addLocation named | removeLocation named | attest named | redact named
  | setMetadata named | removeMetadata named =>
      have hother : ¬ cid = named := fun heq => hunnamed (congrArg some heq.symm)
      rw [action, artifact_withArtifact, if_neg hother]

/-- An action changes a registered artifact only as `observe` says. -/
theorem artifact_action_of_some {release : Release} {cid : Cid} {artifact : Artifact}
    (hregistered : release.artifact cid = some artifact) (entry : SignedAction) :
    (release.action entry.user entry.action).artifact cid =
      some (artifact.observe cid entry) := by
  by_cases hnamed : entry.action.cid? = some cid
  · rw [Artifact.observe, if_pos hnamed]
    obtain ⟨user, action⟩ := entry
    cases action with
    | create oid tag => cases hnamed
    | registerArtifact named name =>
        obtain rfl := Option.some.inj hnamed
        by_cases hauthor : artifact.author = user <;>
          simp [action, Artifact.apply, hregistered, hauthor]
    | addLocation named | removeLocation named | attest named | redact named
    | setMetadata named | removeMetadata named =>
        obtain rfl := Option.some.inj hnamed
        rw [action, artifact_withArtifact, if_pos rfl, hregistered]
        rfl
  · rw [artifact_action_of_unnamed release entry.user hnamed, hregistered,
      Artifact.observe, if_neg hnamed]

/-- An action fills an empty slot only by registering it. -/
theorem artifact_action_of_none {release : Release} {cid : Cid}
    (habsent : release.artifact cid = none) (entry : SignedAction) :
    (release.action entry.user entry.action).artifact cid =
      (entry.registeredName cid).map (Artifact.register entry.user) := by
  obtain ⟨user, action⟩ := entry
  cases action with
  | create oid tag => exact habsent
  | registerArtifact named name =>
      simp only [SignedAction.registeredName]
      by_cases hnamed : named = cid
      · subst hnamed
        have hinsert := IndexMap.get?_insert release.artifacts named
          (Artifact.register user name) named
        rw [if_pos rfl] at hinsert
        rw [action, habsent, if_pos rfl]
        exact hinsert
      · rw [if_neg hnamed, Option.map_none, ← habsent]
        exact artifact_action_of_unnamed release user fun heq => hnamed (Option.some.inj heq)
  | _ => simp [action, SignedAction.registeredName, habsent]

/-- The release's own fields are set once. -/
theorem fields_action (release : Release) (user : Did) (action : Action) :
    (release.action user action).oid = release.oid ∧
      (release.action user action).tag = release.tag ∧
      (release.action user action).creator = release.creator ∧
      (release.action user action).timestamp = release.timestamp := by
  cases action with
  | registerArtifact cid name =>
      simp only [Release.action]
      split
      · split <;> exact ⟨rfl, rfl, rfl, rfl⟩
      · exact ⟨rfl, rfl, rfl, rfl⟩
  | _ => exact ⟨rfl, rfl, rfl, rfl⟩

/-! ## Whole histories -/

theorem run_cons (release : Release) (entry : SignedAction)
    (history : List SignedAction) :
    release.run (entry :: history) =
      (release.action entry.user entry.action).run history := rfl

theorem run_append (release : Release) (earlier later : List SignedAction) :
    release.run (earlier ++ later) = (release.run earlier).run later :=
  List.foldl_append

theorem fields_run (release : Release) (history : List SignedAction) :
    (release.run history).oid = release.oid ∧
      (release.run history).tag = release.tag ∧
      (release.run history).creator = release.creator ∧
      (release.run history).timestamp = release.timestamp := by
  induction history generalizing release with
  | nil => exact ⟨rfl, rfl, rfl, rfl⟩
  | cons entry history ih =>
      obtain ⟨hoid, htag, hcreator, htimestamp⟩ :=
        fields_action release entry.user entry.action
      obtain ⟨hoid', htag', hcreator', htimestamp'⟩ :=
        ih (release.action entry.user entry.action)
      rw [run_cons]
      exact ⟨hoid'.trans hoid, htag'.trans htag, hcreator'.trans hcreator,
        htimestamp'.trans htimestamp⟩

/-- A registered artifact evolves by the actions that name it. -/
theorem artifact_run_of_some {release : Release} {cid : Cid} {artifact : Artifact}
    (hregistered : release.artifact cid = some artifact)
    (history : List SignedAction) :
    (release.run history).artifact cid =
      some (history.foldl (Artifact.observe cid) artifact) := by
  induction history generalizing release artifact with
  | nil => exact hregistered
  | cons entry history ih =>
      rw [run_cons, List.foldl_cons]
      exact ih (artifact_action_of_some hregistered entry)

/-- A slot stays empty until the first registration. -/
theorem artifact_run_of_none {release : Release} {cid : Cid}
    (habsent : release.artifact cid = none) {history : List SignedAction}
    (hnone : ∀ entry ∈ history, entry.registeredName cid = none) :
    (release.run history).artifact cid = none := by
  induction history generalizing release with
  | nil => exact habsent
  | cons entry history ih =>
      rw [run_cons]
      refine ih ?_ fun other hother => hnone other (List.mem_cons_of_mem _ hother)
      rw [artifact_action_of_none habsent entry, hnone entry (by simp)]
      rfl

/-- From the first registration on, the slot holds the artifact it created,
changed by the actions after it. -/
theorem artifact_run_of_first {release : Release} {cid : Cid}
    (habsent : release.artifact cid = none) {earlier later : List SignedAction}
    {entry : SignedAction} {name : String}
    (hname : entry.registeredName cid = some name)
    (hfirst : ∀ other ∈ earlier, other.registeredName cid = none) :
    (release.run (earlier ++ entry :: later)).artifact cid =
      some (later.foldl (Artifact.observe cid) (Artifact.register entry.user name)) := by
  rw [run_append, run_cons]
  refine artifact_run_of_some ?_ later
  rw [artifact_action_of_none (artifact_run_of_none habsent hfirst) entry, hname]
  rfl

/-- Replaying operations is running their signed actions in order. -/
theorem foldl_op_eq_run (release : Release) (ops : List Op) :
    ops.foldl Release.op release = release.run (ops.flatMap Op.signedActions) := by
  induction ops generalizing release with
  | nil => rfl
  | cons op ops ih =>
      rw [List.foldl_cons, List.flatMap_cons, run_append, ih]
      congr 1
      rw [Release.op, run, Op.signedActions, List.foldl_map]

/-- The linear history of a replay: the root's own actions after its `create`,
then those of the later operations. -/
def history (root : Op) (ops : List Op) : List SignedAction :=
  root.signedActions.tail ++ ops.flatMap Op.signedActions

theorem replay_eq_ok_iff {commit : Oid → Except String Unit} {root : Op}
    {ops : List Op} {release : Release} :
    replay commit root ops = .ok release ↔
      ∃ oid tag actions, root.actions = .create oid tag :: actions ∧
        commit oid = .ok () ∧
        release = (Release.new oid tag root.author root.timestamp).run
          (history root ops) := by
  have hroot : ∀ (actions : List Action) (initial : Release),
      actions.foldl (fun release action => release.action root.author action) initial =
        initial.run (actions.map fun action => ⟨root.author, action⟩) := by
    intro actions initial
    rw [run, List.foldl_map]
  rw [replay, fromRoot]
  split
  · rename_i oid tag actions hactions
    have hhistory : history root ops =
        (actions.map fun action => ⟨root.author, action⟩) ++
          ops.flatMap Op.signedActions := by
      simp [history, Op.signedActions, hactions]
    cases hcommit : commit oid with
    | error err =>
        simp only [Except.map, reduceCtorEq, false_iff]
        rintro ⟨oid', tag', actions', heq, hok, -⟩
        simp_all
    | ok value =>
        simp only [Except.map, Except.ok.injEq, foldl_op_eq_run, hroot, ← run_append,
          ← hhistory]
        constructor
        · rintro rfl
          exact ⟨oid, tag, actions, hactions, hcommit, rfl⟩
        · rintro ⟨oid', tag', actions', heq, -, rfl⟩
          simp_all
  · rename_i hinitial
    simp only [Except.map, reduceCtorEq, false_iff]
    rintro ⟨oid, tag, actions, heq, -⟩
    exact hinitial oid tag actions heq

end Release

end RadicleArtifact.Cob
