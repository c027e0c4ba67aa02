import RadicleArtifact.Replicas.Invariants
import RadicleArtifact.Trust.Trust

/-!
# What every replica shows

The checks of the writing methods are made once, at the node that signs.  They hold at every
other node as well: an accepted redaction takes effect wherever it arrives, in whatever order
the entries are evaluated there, and nothing longer than the limits is ever shown.
-/

namespace RadicleArtifact.Replicas

open RadicleArtifact.Core
open RadicleArtifact.Library
open RadicleArtifact.Cob
open RadicleArtifact.Watch (metadataKeySizeBytes)

/-! ## A redaction of a registered artifact -/

/-- A redaction counts when a registration stands before it. -/
theorem isRedactedBy_of_registered_before {commit : Oid → Except String Unit} {root : Op}
    {ops : List Op} {release : Release}
    (hreplay : Release.replay commit root ops = .ok release) {cid : Cid}
    {earlier later : List SignedAction} {entry : SignedAction} {user : Did} {reason : String}
    (hhistory : Release.history root ops = earlier ++ entry :: later)
    (hregistered : ∃ before ∈ earlier, ∃ name, before.registeredName cid = some name)
    (hredacts : entry.redactWrite cid user = some reason) :
    ∃ artifact, release.artifact cid = some artifact ∧ artifact.isRedactedBy user = true := by
  obtain ⟨oid, tag, actions, -, -, rfl⟩ := Release.replay_eq_ok_iff.mp hreplay
  have habsent := Release.artifact_new oid tag root.author root.timestamp cid
  obtain ⟨artifact, hartifact⟩ := (Release.exists_artifact_run_iff habsent earlier).mpr hregistered
  rw [hhistory, Release.run_append]
  refine ⟨_, Release.artifact_run_of_some hartifact (entry :: later), ?_⟩
  rw [Artifact.isRedactedBy_eq_isSome, Artifact.redactionBy_foldl_observe, lastWrite_cons, hredacts]
  cases lastWrite (SignedAction.redactWrite cid user) later <;> rfl

section Redaction

variable {Node Process : Type} [DecidableEq Node] [DecidableEq Process] {floats : Json.Floats}
  {creation : Creation} {commit : Node → Oid → Except String Unit} {world : World Node Process}

/-- An accepted redaction reaches every node that has its entry: whichever other entries the
node has and in whichever order it evaluates them, it shows the artifact as redacted by the
signer, and where the signer is its author or a delegate no check lets the artifact pass. -/
theorem accepted_redaction_is_permanent
    (hreachable : Reachable (World.step floats creation commit) World.KeepsOpened .initial world)
    (id : ℕ) (entry : Entry) (hentry : world.entries[id]? = some entry) (cid : Cid)
    (reason : String) (hredact : .redact cid reason ∈ entry.op.actions) (node : Node)
    (hheld : id ∈ world.storage node) (order : List ℕ)
    (horder : Arranges world.past (world.storage node) order) (release : Release)
    (hview : world.view creation (commit node) order = .ok release) :
    ∃ artifact, release.artifact cid = some artifact ∧
      artifact.isRedactedBy entry.op.author = true ∧
      ∀ trust : Trust, (entry.op.author = artifact.author ∨
          entry.op.author ∈ trust.delegates) →
        ∀ scope, trust.check scope release artifact ≠ .ok () := by
  have hsound := World.Sound.of_reachable hreachable
  obtain ⟨before, hbefore, hregisters⟩ :=
    (World.Grounded.of_reachable hreachable).redactions id entry cid reason hentry hredact
  obtain ⟨earlier, later, rfl⟩ := List.append_of_mem (horder.mem_iff.mpr hheld)
  -- The registration is held as well, and every arrangement puts it first.
  have hfirst : before ∈ earlier :=
    horder.mem_earlier hbefore (hsound.storage_closed node id hheld hbefore)
      fun hself => (hsound.past_lt id id hself).false
  obtain ⟨actions, rest, hactions⟩ := List.append_of_mem hredact
  let signed (action : Action) : SignedAction := ⟨entry.op.author, action⟩
  have hhistory : Release.history creation.root (world.ops (earlier ++ id :: later)) =
      ((world.ops earlier).flatMap Op.signedActions ++ actions.map signed) ++
        signed (.redact cid reason) ::
          (rest.map signed ++ (world.ops later).flatMap Op.signedActions) := by
    rw [World.history_root, World.ops_append, World.ops_cons hentry, List.flatMap_append,
      List.flatMap_cons, Op.signedActions, hactions]
    simp [signed]
  obtain ⟨registration, hmem, hname⟩ :=
    World.exists_registeredName_iff.mpr ⟨before, hfirst, hregisters⟩
  have hredacts : (signed (.redact cid reason)).redactWrite cid entry.op.author = some reason := by
    simp [SignedAction.redactWrite, signed]
  obtain ⟨artifact, hartifact, hredacted⟩ :=
    isRedactedBy_of_registered_before hview hhistory
      ⟨registration, List.mem_append_left _ hmem, hname⟩ hredacts
  refine ⟨artifact, hartifact, hredacted, fun trust hparty scope hcheck => ?_⟩
  exact (Trust.check_eq_ok_iff.mp hcheck).2.2 ⟨entry.op.author, hparty, hredacted⟩

/-- One node registers and redacts an artifact and another fetches both entries, before the first
loses its refs. -/
theorem accepted_redaction_is_permanent_after_fetch :
    let signer : Did := .filled 32 1
    let cid := blake3HashToCid (.filled 32 7) .blob
    let creation : Creation := ⟨signer, .filled 20 5, none, 5⟩
    let opened : World Bool Unit := World.initial.keep () ⟨true, []⟩
    let registered := (opened.sign true ⟨signer, [.registerArtifact cid "app"], 6⟩).keep ()
      ⟨true, [0]⟩
    let redacted := (registered.sign true ⟨signer, [.redact cid "bad"], 7⟩).keep () ⟨true, [0, 1]⟩
    let fetched := redacted.store false (redacted.storage false ∪ {0, 1})
    let removed := (fetched.drop ()).store true ∅
    ∃ release artifact, removed.view creation (fun _ => .ok ()) [0, 1] = .ok release ∧
      release.artifact cid = some artifact ∧ artifact.isRedactedBy signer = true := by
  intro signer cid creation opened registered redacted fetched removed
  let floats : Json.Floats := ⟨fun _ => [], fun _ => none⟩
  let commit : Bool → Oid → Except String Unit := fun _ _ => .ok ()
  have hopened : Reachable (World.step floats creation commit) World.KeepsOpened .initial opened :=
    Reachable.start.step (.getMut () true ∅ []) _ (Finset.empty_subset _) rfl
  have hregistered := hopened.step
    (.call () signer (.registerArtifact cid "app") 6 [0]) registered
    (by trivial) rfl
  have hredacted := hregistered.step (.call () signer (.redact cid "bad") 7 [0, 1]) redacted
    (by trivial) rfl
  have hfetched := hredacted.step (.fetch false {0, 1}) fetched (by trivial) rfl
  have hclosed := hfetched.step (.close ()) (fetched.drop ()) (by trivial) rfl
  have hremoved := hclosed.step (.remove true ∅) removed
    (fun process handle hhandle => by cases hhandle) rfl
  obtain ⟨artifact, hartifact, hshown, -⟩ :=
    accepted_redaction_is_permanent hremoved 1 ⟨⟨signer, [.redact cid "bad"], 7⟩, {0}⟩ rfl cid
      "bad" (by simp) false (by decide) [0, 1] (by decide) _ rfl
  exact ⟨_, artifact, rfl, hartifact, hshown⟩

end Redaction

/-! ## Limits -/

section Limits

variable (floats : Json.Floats)

/-- The reasons and the metadata of an artifact are no longer than a method accepts. -/
structure Limited (artifact : Artifact) : Prop where
  reasons : ∀ user reason, artifact.redactionBy user = some reason →
    byteLen reason ≤ maxRedactReasonLen
  metadata : ∀ key user value, (user, .set value) ∈ artifact.metadataWrites key →
    ValidKey key ∧ serializedLen floats value ≤ maxMetadataValueLen

variable {floats} {artifact : Artifact}

namespace Limited

theorem register (author : Did) (name : String) :
    Limited floats (Artifact.register author name) where
  reasons user reason hreason := by simp [Artifact.redactionBy, Artifact.register] at hreason
  metadata key user value hwrite := by
    simp [Artifact.metadataWrites, Artifact.register] at hwrite

theorem writeMetadata (hlimited : Limited floats artifact) {user : Did} {key : String}
    {write : MetadataWrite} (hwrite : ∀ value, write = .set value →
      ValidKey key ∧ serializedLen floats value ≤ maxMetadataValueLen) :
    Limited floats (artifact.writeMetadata user key write) where
  reasons := hlimited.reasons
  metadata wanted other value hmem := by
    rw [Artifact.metadataWrites_writeMetadata] at hmem
    split at hmem
    · rename_i hkey
      rcases List.mem_append.mp hmem with hold | hnew
      · exact hlimited.metadata wanted other value (hkey ▸ (List.mem_filter.mp hold).1)
      · obtain ⟨-, hset⟩ := Prod.mk.inj (List.mem_singleton.mp hnew)
        exact hkey ▸ hwrite value hset.symm
    · exact hlimited.metadata wanted other value hmem

theorem apply (hlimited : Limited floats artifact) {release : Release} (user : Did)
    {action : Action} (hpermitted : Permitted floats release action) :
    Limited floats (artifact.apply user action) := by
  cases action with
  | registerArtifact cid name =>
      refine ⟨fun other reason hreason => ?_, fun key other value hwrite => ?_⟩
      · rw [Artifact.read_apply_register (Artifact.redactionBy · other) fun _ => rfl] at hreason
        exact hlimited.reasons other reason hreason
      · rw [Artifact.read_apply_register (Artifact.metadataWrites · key) fun _ => rfl] at hwrite
        exact hlimited.metadata key other value hwrite
  | attest cid =>
      refine ⟨fun other reason hreason => ?_, fun key other value hwrite => ?_⟩
      · rw [Artifact.apply, Artifact.read_attest (Artifact.redactionBy · other) fun _ => rfl]
          at hreason
        exact hlimited.reasons other reason hreason
      · rw [Artifact.apply, Artifact.read_attest (Artifact.metadataWrites · key) fun _ => rfl]
          at hwrite
        exact hlimited.metadata key other value hwrite
  | redact cid reason =>
      refine ⟨fun other wanted hreason => ?_, hlimited.metadata⟩
      rw [Artifact.apply, Artifact.redactionBy_redact] at hreason
      split at hreason
      · exact Option.some.inj hreason ▸ hpermitted.2
      · exact hlimited.reasons other wanted hreason
  | setMetadata cid key value =>
      exact hlimited.writeMetadata fun written hwritten =>
        MetadataWrite.set.inj hwritten ▸ hpermitted
  | removeMetadata cid key =>
      apply hlimited.writeMetadata
      intro written hwritten
      contradiction
  | _ => exact ⟨hlimited.reasons, hlimited.metadata⟩

theorem observe (hlimited : Limited floats artifact) {release : Release} (cid : Cid)
    {entry : SignedAction} (hpermitted : Permitted floats release entry.action) :
    Limited floats (artifact.observe cid entry) := by
  rw [Artifact.observe]
  split
  · exact hlimited.apply entry.user hpermitted
  · exact hlimited

/-- A history of accepted actions keeps the limits. -/
theorem run {release : Release} {history : List SignedAction}
    (haccepted : ∀ entry ∈ history, ∃ seen, Permitted floats seen entry.action)
    (hlimited : ∀ cid artifact, release.artifact cid = some artifact → Limited floats artifact) :
    ∀ cid artifact, (release.run history).artifact cid = some artifact →
      Limited floats artifact := by
  induction history generalizing release with
  | nil => exact hlimited
  | cons entry history ih =>
      obtain ⟨⟨seen, hpermitted⟩, hrest⟩ := List.forall_mem_cons.mp haccepted
      refine ih hrest fun cid artifact hartifact => ?_
      cases hslot : release.artifact cid with
      | some existing =>
          rw [Release.artifact_action_of_some hslot entry] at hartifact
          exact Option.some.inj hartifact ▸ (hlimited cid existing hslot).observe cid hpermitted
      | none =>
          rw [Release.artifact_action_of_none hslot entry] at hartifact
          obtain ⟨name, -, rfl⟩ := Option.map_eq_some_iff.mp hartifact
          exact .register entry.user name

end Limited

variable {Node Process : Type} [DecidableEq Node] [DecidableEq Process] {creation : Creation}
  {commit : Node → Oid → Except String Unit} {world : World Node Process}

/-- However the nodes exchange and lose entries, no view shows a redaction reason, a metadata
key or a metadata value past the limits, or a key that breaks the rules. -/
theorem views_are_limited
    (hreachable : Reachable (World.step floats creation commit) anyStep .initial world)
    (node : Node) (order : List ℕ) (release : Release)
    (hview : world.view creation (commit node) order = .ok release) (cid : Cid)
    (artifact : Artifact) (hartifact : release.artifact cid = some artifact) :
    Limited floats artifact := by
  have hsound := World.Sound.of_reachable hreachable
  obtain ⟨oid, tag, actions, -, -, rfl⟩ := Release.replay_eq_ok_iff.mp hview
  refine Limited.run (fun signed hsigned => ?_) (fun cid artifact habsent => ?_) cid artifact
    hartifact
  · rw [World.history_root, List.mem_flatMap] at hsigned
    obtain ⟨op, hop, hsigned⟩ := hsigned
    obtain ⟨id, -, entry, hentry, rfl⟩ := World.mem_ops_iff.mp hop
    obtain ⟨action, haction, rfl⟩ := List.mem_map.mp hsigned
    obtain ⟨seen, method, hmade⟩ := hsound.made id entry hentry
    exact ⟨seen, permitted_of_transaction hmade action haction⟩
  · simp at habsent

/-- An artifact registered with its size. -/
theorem views_are_limited_with_size :
    let signer : Did := .filled 32 1
    let cid := blake3HashToCid (.filled 32 7) .blob
    let creation : Creation := ⟨signer, .filled 20 5, none, 5⟩
    let floats : Json.Floats := ⟨fun _ => [], fun _ => none⟩
    let opened : World Bool Unit := World.initial.keep () ⟨true, []⟩
    let registered := (opened.sign true ⟨signer, [.registerArtifact cid "app",
      .setMetadata cid metadataKeySizeBytes (sizeValue 12)], 6⟩).keep () ⟨true, [0]⟩
    ∃ release artifact, registered.view creation (fun _ => .ok ()) [0] = .ok release ∧
      release.artifact cid = some artifact ∧ Limited floats artifact := by
  intro signer cid creation floats opened registered
  let commit : Bool → Oid → Except String Unit := fun _ _ => .ok ()
  have hopened : Reachable (World.step floats creation commit) anyStep .initial opened :=
    Reachable.start.step (.getMut () true ∅ []) _ trivial rfl
  have hregistered := hopened.step
    (.call () signer (.registerArtifactWithSize cid "app" 12) 6 [0]) registered trivial rfl
  exact ⟨_, _, rfl, rfl, views_are_limited hregistered true [0] _ rfl cid _ rfl⟩

end Limits

end RadicleArtifact.Replicas
