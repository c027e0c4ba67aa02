import RadicleArtifact.Cob.Replay
import RadicleArtifact.Replicas.Graph

/-!
# Invariants of the entry graph

Whatever the nodes do and in whatever order, an entry's past lies before it, a storage that
holds an entry holds its past, and every entry was accepted by the method that made it.
While no storage loses entries that an open release was evaluated from, every redaction was
made after a registration of its artifact.
-/

namespace RadicleArtifact.Replicas.World

open RadicleArtifact.Core
open RadicleArtifact.Library
open RadicleArtifact.Cob

/-! ## Signing leaves the other entries alone -/

section Sign

variable {Node Process : Type} [DecidableEq Node] (world : World Node Process) (node : Node)
  (op : Op)

@[simp]
theorem entries_sign :
    (world.sign node op).entries = world.entries ++ [⟨op, world.storage node⟩] := rfl

@[simp]
theorem handles_sign : (world.sign node op).handles = world.handles := rfl

theorem getElem?_sign {id : ℕ} (hid : id < world.entries.length) :
    (world.sign node op).entries[id]? = world.entries[id]? :=
  List.getElem?_append_left hid

theorem getElem?_sign_length :
    (world.sign node op).entries[world.entries.length]? = some ⟨op, world.storage node⟩ := by
  rw [entries_sign, List.getElem?_append_right le_rfl, Nat.sub_self]
  rfl

theorem past_sign {id : ℕ} (hid : id < world.entries.length) :
    (world.sign node op).past id = world.past id := by
  rw [past, getElem?_sign world node op hid, past]

@[simp]
theorem past_sign_length :
    (world.sign node op).past world.entries.length = world.storage node := by
  rw [past, getElem?_sign_length]
  rfl

/-- An entry after signing is an earlier one or the one just signed. -/
theorem eq_of_getElem?_sign {id : ℕ} {entry : Entry}
    (hentry : (world.sign node op).entries[id]? = some entry) :
    (id < world.entries.length ∧ world.entries[id]? = some entry) ∨
      (id = world.entries.length ∧ entry = ⟨op, world.storage node⟩) := by
  rcases Nat.lt_or_ge id world.entries.length with hlt | hge
  · exact .inl ⟨hlt, getElem?_sign world node op hlt ▸ hentry⟩
  · have hlast : id < world.entries.length + 1 := by
      simpa using (List.getElem?_eq_some_iff.mp hentry).1
    obtain rfl : id = world.entries.length := by omega
    rw [getElem?_sign_length] at hentry
    exact .inr ⟨rfl, (Option.some.inj hentry).symm⟩

theorem mem_storage_sign {id : ℕ} {other : Node} :
    id ∈ (world.sign node op).storage other ↔
      id ∈ world.storage other ∨ (other = node ∧ id = world.entries.length) := by
  by_cases hother : other = node
  · subst hother
    simp [sign, or_comm]
  · simp [sign, hother]

theorem mem_storage_store {id : ℕ} {ids : Finset ℕ} {other : Node} :
    id ∈ (world.store node ids).storage other ↔
      if other = node then id ∈ ids else id ∈ world.storage other := by
  by_cases hother : other = node
  · subst hother
    simp [store]
  · simp [store, hother]

end Sign

/-! ## The graph -/

/-- The past of an entry was there before it, and so was the past of that. -/
structure Sound {Node Process : Type} (floats : Json.Floats) (world : World Node Process) :
    Prop where
  past_lt : ∀ id, ∀ before ∈ world.past id, before < id
  past_closed : ∀ id, Closed world.past (world.past id)
  storage_lt : ∀ node, ∀ id ∈ world.storage node, id < world.entries.length
  storage_closed : ∀ node, Closed world.past (world.storage node)
  made : ∀ (id : ℕ) (entry : Entry), world.entries[id]? = some entry → ∃ release method,
    Method.transaction floats release method = .ok entry.op.actions

section Sound

variable {Node Process : Type} {floats : Json.Floats} {world next : World Node Process}

theorem sound_initial : Sound floats (initial : World Node Process) where
  past_lt id before hbefore := by simp [past, initial] at hbefore
  past_closed id before hbefore := by simp [past, initial] at hbefore
  storage_lt node id hid := by simp [initial] at hid
  storage_closed node id hid := by simp [initial] at hid
  made id entry hentry := by simp [initial] at hentry

namespace Sound

variable [DecidableEq Node]

theorem sign (hsound : Sound floats world) (node : Node) (op : Op) {release : Release}
    {method : Method} (hmade : method.transaction floats release = .ok op.actions) :
    Sound floats (world.sign node op) := by
  have hcases : ∀ id, (world.sign node op).past id = world.past id ∨
      (id = world.entries.length ∧ (world.sign node op).past id = world.storage node) := by
    intro id
    rcases Nat.lt_trichotomy id world.entries.length with hlt | rfl | hgt
    · exact .inl (past_sign world node op hlt)
    · exact .inr ⟨rfl, past_sign_length world node op⟩
    · have hnew : (world.sign node op).entries.length ≤ id := by simpa using hgt
      rw [past, past, List.getElem?_eq_none hnew, List.getElem?_eq_none hgt.le]
      exact .inl rfl
  have hkept : ∀ {ids : Finset ℕ}, (∀ id ∈ ids, id < world.entries.length) →
      Closed world.past ids → Closed (world.sign node op).past ids := by
    intro ids hids hclosed id hid
    rw [past_sign world node op (hids id hid)]
    exact hclosed id hid
  have hearlier : ∀ id, ∀ before ∈ world.past id, before < world.entries.length := by
    intro id before hbefore
    rcases Nat.lt_or_ge id world.entries.length with hlt | hge
    · exact (hsound.past_lt id before hbefore).trans hlt
    · rw [past, List.getElem?_eq_none hge] at hbefore
      exact absurd hbefore (Finset.notMem_empty before)
  have hstorage := hkept (hsound.storage_lt node) (hsound.storage_closed node)
  constructor
  case past_lt =>
    intro id before hbefore
    rcases hcases id with hsame | ⟨rfl, hnew⟩
    · exact hsound.past_lt id before (hsame ▸ hbefore)
    · exact hsound.storage_lt node before (hnew ▸ hbefore)
  case past_closed =>
    intro id
    rcases hcases id with hsame | ⟨rfl, hnew⟩
    · rw [hsame]
      exact hkept (hearlier id) (hsound.past_closed id)
    · rw [hnew]
      exact hstorage
  case storage_lt =>
    intro other id hid
    rw [entries_sign, List.length_append, List.length_singleton]
    rcases (mem_storage_sign world node op).mp hid with hid | ⟨-, rfl⟩
    · exact (hsound.storage_lt other id hid).trans (Nat.lt_succ_self _)
    · exact Nat.lt_succ_self _
  case storage_closed =>
    intro other id hid before hbefore
    apply (mem_storage_sign world node op).mpr
    rcases (mem_storage_sign world node op).mp hid with hid | ⟨rfl, rfl⟩
    · exact .inl (hkept (hsound.storage_lt other) (hsound.storage_closed other) id hid hbefore)
    · rw [past_sign_length] at hbefore
      exact .inl hbefore
  case made =>
    intro id entry hentry
    rcases eq_of_getElem?_sign world node op hentry with ⟨-, hold⟩ | ⟨-, rfl⟩
    · exact hsound.made id entry hold
    · exact ⟨release, method, hmade⟩

theorem store (hsound : Sound floats world) (node : Node) {ids : Finset ℕ}
    (hids : ∀ id ∈ ids, id < world.entries.length) (hclosed : Closed world.past ids) :
    Sound floats (world.store node ids) := by
  have hstorage : ∀ other, (world.store node ids).storage other =
      if other = node then ids else world.storage other := by
    intro other
    ext id
    rw [mem_storage_store]
    split <;> rfl
  refine ⟨hsound.past_lt, hsound.past_closed, fun other => ?_, fun other => ?_, hsound.made⟩
  · rw [hstorage]
    split
    · exact hids
    · exact hsound.storage_lt other
  · rw [hstorage]
    split
    · exact hclosed
    · exact hsound.storage_closed other

variable [DecidableEq Process] {creation : Creation} {commit : Node → Oid → Except String Unit}
  {permitted : World Node Process → Event Node Process → Prop}

theorem of_change (hsound : Sound floats world)
    (hchange : Change floats creation commit permitted world next) : Sound floats next := by
  cases hchange with
  | same => exact hsound
  | opened | closed =>
      exact ⟨hsound.past_lt, hsound.past_closed, hsound.storage_lt, hsound.storage_closed,
        hsound.made⟩
  | signed process handle release signer method actions timestamp order _ _ _ hactions _ =>
      have hsign := hsound.sign handle.node ⟨signer, actions, timestamp⟩ hactions
      exact ⟨hsign.past_lt, hsign.past_closed, hsign.storage_lt, hsign.storage_closed,
        hsign.made⟩
  | fetched node ids hids hclosed =>
      refine hsound.store node (fun id hid => ?_) fun id hid => ?_
      · rcases Finset.mem_union.mp hid with hid | hid
        · exact hsound.storage_lt node id hid
        · exact hids id hid
      · rcases Finset.mem_union.mp hid with hid | hid
        · exact (hsound.storage_closed node id hid).trans Finset.subset_union_left
        · exact (hclosed id hid).trans Finset.subset_union_right
  | removed node kept _ hkept hclosed =>
      exact hsound.store node (fun id hid => hsound.storage_lt node id (hkept hid)) hclosed

theorem of_reachable
    (hreachable : Reachable (step floats creation commit) permitted initial world) :
    Sound floats world :=
  hreachable.invariant sound_initial fun _ _ _ hsound hpermitted hstep =>
    hsound.of_change (change_of_step hpermitted hstep)

end Sound

end Sound

/-! ## Registrations -/

/-- The entry registers the artifact. -/
def Registers {Node Process : Type} (world : World Node Process) (cid : Cid) (id : ℕ) : Prop :=
  ∃ entry name, world.entries[id]? = some entry ∧ .registerArtifact cid name ∈ entry.op.actions

section Registers

variable {Node Process : Type} {world : World Node Process} {creation : Creation} {cid : Cid}

theorem registeredName_eq_some_iff {entry : SignedAction} {name : String} :
    entry.registeredName cid = some name ↔ entry.action = .registerArtifact cid name := by
  rw [SignedAction.registeredName]
  split
  · rename_i named written haction
    simp [haction]
  · rename_i hother
    simp only [reduceCtorEq, false_iff]
    exact hother cid name

theorem history_root (ops : List Op) :
    Release.history creation.root ops = ops.flatMap Op.signedActions := by
  rw [Release.history]
  rfl

theorem mem_ops_iff {order : List ℕ} {op : Op} :
    op ∈ world.ops order ↔
      ∃ id ∈ order, ∃ entry, world.entries[id]? = some entry ∧ entry.op = op := by
  simp [ops, List.mem_filterMap]

theorem ops_append (earlier later : List ℕ) :
    world.ops (earlier ++ later) = world.ops earlier ++ world.ops later :=
  List.filterMap_append

theorem ops_cons {id : ℕ} {entry : Entry} (hentry : world.entries[id]? = some entry)
    (later : List ℕ) : world.ops (id :: later) = entry.op :: world.ops later := by
  rw [ops, List.filterMap_cons, hentry]
  rfl

/-- A history registers the artifact when one of its entries does. -/
theorem exists_registeredName_iff {order : List ℕ} :
    (∃ entry ∈ (world.ops order).flatMap Op.signedActions,
        ∃ name, entry.registeredName cid = some name) ↔ ∃ id ∈ order, world.Registers cid id := by
  simp only [registeredName_eq_some_iff, List.mem_flatMap, mem_ops_iff, Op.signedActions,
    List.mem_map, Registers]
  constructor
  · rintro ⟨_, ⟨_, ⟨id, hid, entry, hentry, rfl⟩, action, haction, rfl⟩, name, rfl⟩
    exact ⟨id, hid, entry, name, hentry, haction⟩
  · rintro ⟨id, hid, entry, name, hentry, haction⟩
    exact ⟨_, ⟨entry.op, ⟨id, hid, entry, hentry, rfl⟩, _, haction, rfl⟩, name, rfl⟩

theorem exists_artifact_view_iff {commit : Oid → Except String Unit} {order : List ℕ}
    {release : Release} (hview : world.view creation commit order = .ok release) :
    (∃ artifact, release.artifact cid = some artifact) ↔ ∃ id ∈ order, world.Registers cid id := by
  rw [Release.exists_artifact_replay_iff hview, history_root, exists_registeredName_iff]

end Registers

/-- Open releases were evaluated from what their storage holds, and every redaction was made
after a registration of its artifact. -/
structure Grounded {Node Process : Type} (world : World Node Process) : Prop where
  handles : ∀ (process : Process) (handle : Handle Node), world.handles process = some handle →
    ∀ id ∈ handle.order, id ∈ world.storage handle.node
  redactions : ∀ (id : ℕ) (entry : Entry) (cid : Cid) (reason : String),
    world.entries[id]? = some entry → .redact cid reason ∈ entry.op.actions →
      ∃ before ∈ world.past id, world.Registers cid before

section Grounded

variable {Node Process : Type} [DecidableEq Node] {floats : Json.Floats} {creation : Creation}
  {commit : Node → Oid → Except String Unit} {world next : World Node Process}

theorem registers_sign {cid : Cid} {id : ℕ} (hregisters : world.Registers cid id) (node : Node)
    (op : Op) : (world.sign node op).Registers cid id := by
  obtain ⟨entry, name, hentry, haction⟩ := hregisters
  have hid := (List.getElem?_eq_some_iff.mp hentry).1
  exact ⟨entry, name, (getElem?_sign world node op hid).trans hentry, haction⟩

namespace Grounded

omit [DecidableEq Node] in
theorem keep [DecidableEq Process] (hgrounded : Grounded world) (process : Process)
    {handle : Handle Node} (hheld : ∀ id ∈ handle.order, id ∈ world.storage handle.node) :
    Grounded (world.keep process handle) := by
  refine ⟨fun other opened hopened => ?_, hgrounded.redactions⟩
  by_cases hother : other = process
  · simp only [World.keep, hother, Function.update_self, Option.some.injEq] at hopened
    exact hopened ▸ hheld
  · simp only [World.keep, Function.update_of_ne hother] at hopened
    exact hgrounded.handles other opened hopened

omit [DecidableEq Node] in
theorem drop [DecidableEq Process] (hgrounded : Grounded world) (process : Process) :
    Grounded (world.drop process) := by
  refine ⟨fun other opened hopened => ?_, hgrounded.redactions⟩
  by_cases hother : other = process
  · simp [World.drop, hother] at hopened
  · simp only [World.drop, Function.update_of_ne hother] at hopened
    exact hgrounded.handles other opened hopened

/-- A redaction is only accepted where its artifact is registered, so a registration is in the
past of the new entry. -/
theorem sign (hgrounded : Grounded world) (op : Op) {process : Process}
    {handle : Handle Node} {release : Release} {method : Method}
    (hhandle : world.handles process = some handle)
    (hview : world.view creation (commit handle.node) handle.order = .ok release)
    (hmade : method.transaction floats release = .ok op.actions) :
    Grounded (world.sign handle.node op) where
  handles other opened hopened id hid := by
    apply (mem_storage_sign world handle.node op).mpr
    exact .inl (hgrounded.handles other opened hopened id hid)
  redactions id entry cid reason hentry hredact := by
    rcases eq_of_getElem?_sign world handle.node op hentry with ⟨hlt, hold⟩ | ⟨rfl, rfl⟩
    · obtain ⟨before, hbefore, hregisters⟩ := hgrounded.redactions id entry cid reason hold hredact
      rw [← past_sign world handle.node op hlt] at hbefore
      exact ⟨before, hbefore, registers_sign hregisters handle.node op⟩
    · have hartifact := (permitted_of_transaction hmade _ hredact).1
      obtain ⟨before, hbefore, hregisters⟩ := (exists_artifact_view_iff hview).mp hartifact
      refine ⟨before, ?_, registers_sign hregisters handle.node op⟩
      rw [past_sign_length]
      exact hgrounded.handles process handle hhandle before hbefore

/-- What a storage gains, or loses while nothing is open, leaves the open releases alone. -/
theorem store (hgrounded : Grounded world) (node : Node) {ids : Finset ℕ}
    (hheld : ∀ process handle, world.handles process = some handle → handle.node = node →
      world.storage node ⊆ ids) : Grounded (world.store node ids) := by
  refine ⟨fun process handle hhandle id hid => ?_, hgrounded.redactions⟩
  have hmem := hgrounded.handles process handle hhandle id hid
  rw [mem_storage_store]
  split
  · rename_i hnode
    exact hheld process handle hhandle hnode (hnode ▸ hmem)
  · exact hmem

variable [DecidableEq Process]

theorem of_change (hgrounded : Grounded world)
    (hchange : Change floats creation commit KeepsOpened world next) : Grounded next := by
  cases hchange with
  | same => exact hgrounded
  | opened process node read order hpermitted horder =>
      exact hgrounded.keep process fun id hid => hpermitted (horder.mem_iff.mp hid)
  | signed process handle release signer method actions timestamp order _ hhandle hview hactions
      horder =>
      have hsign := hgrounded.sign ⟨signer, actions, timestamp⟩ hhandle hview hactions
      exact hsign.keep process fun id hid => horder.mem_iff.mp hid
  | closed process => exact hgrounded.drop process
  | fetched node ids hids hclosed =>
      exact hgrounded.store node fun _ _ _ _ => Finset.subset_union_left
  | removed node kept hpermitted hkept hclosed =>
      exact hgrounded.store node fun process handle hhandle hnode =>
        absurd hnode (hpermitted process handle hhandle)

theorem of_reachable
    (hreachable : Reachable (step floats creation commit) KeepsOpened initial world) :
    Grounded world := by
  apply hreachable.invariant
  · exact ⟨fun process handle hhandle => by simp [initial] at hhandle,
      fun id entry cid reason hentry => by simp [initial] at hentry⟩
  · intro state event next hgrounded hpermitted hstep
    exact hgrounded.of_change (change_of_step hpermitted hstep)

end Grounded

end Grounded

end RadicleArtifact.Replicas.World
