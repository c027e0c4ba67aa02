import RadicleArtifact.Library.Arrangement
import RadicleArtifact.Library.Fallible
import RadicleArtifact.Library.Transition
import RadicleArtifact.Replicas.Api

/-!
# Replicas of a release

Every node has a storage of its own.  A release is a graph of signed entries, each made
after the entries the storage held then; storages exchange entries in any order and lose
them with their refs.  What a node shows is the replay of the entries at hand, in some
arrangement that respects the graph.
-/

namespace RadicleArtifact.Replicas

open RadicleArtifact.Core
open RadicleArtifact.Library
open RadicleArtifact.Cob

/-- How a release came to be: `Releases::create` signs one action. -/
structure Creation where
  author : Did
  oid : Oid
  tag : Option Oid
  timestamp : Timestamp

def Creation.root (creation : Creation) : Op where
  author := creation.author
  actions := [.create creation.oid creation.tag]
  timestamp := creation.timestamp

/-- A signed entry, with the entries it builds on. -/
structure Entry where
  op : Op
  past : Finset ℕ

/-- A release open for writing: the entries its state was evaluated from. -/
structure Handle (Node : Type) where
  node : Node
  order : List ℕ

/-- All entries there are, in the order they were signed, and who holds which of them.  The
root belongs to every storage that has the release. -/
structure World (Node Process : Type) where
  entries : List Entry
  storage : Node → Finset ℕ
  handles : Process → Option (Handle Node)

inductive Event (Node Process : Type) where
  /-- `Releases::get_mut` and `ReleaseMut::reload`: the entries that are read are evaluated in
  the given order.  They are those of the storage, unless the cache answers with an older
  state. -/
  | getMut (process : Process) (node : Node) (read : Finset ℕ) (order : List ℕ)
  /-- A method of the open release, which is evaluated again after it. -/
  | call (process : Process) (signer : Did) (method : Method) (timestamp : Timestamp)
      (order : List ℕ)
  /-- The process drops the release it has open. -/
  | close (process : Process)
  /-- Entries arrive from other storages. -/
  | fetch (node : Node) (ids : Finset ℕ)
  /-- `Releases::remove`: what the refs that are left lead to stays. -/
  | remove (node : Node) (kept : Finset ℕ)

namespace World

section Steps

variable {Node Process : Type} (world : World Node Process)

def initial : World Node Process :=
  ⟨[], fun _ => ∅, fun _ => none⟩

/-- What the entry was made after. -/
def past (id : ℕ) : Finset ℕ :=
  (world.entries[id]?).elim ∅ Entry.past

def ops (order : List ℕ) : List Op :=
  order.filterMap fun id => (world.entries[id]?).map Entry.op

/-- What the entries make of the release. -/
def view (creation : Creation) (commit : Oid → Except String Unit) (order : List ℕ) :
    Except Build Release :=
  Release.replay commit creation.root (world.ops order)

variable [DecidableEq Node]

/-- An operation is signed on top of what the storage holds. -/
def sign (node : Node) (op : Op) : World Node Process :=
  { world with
    entries := world.entries ++ [⟨op, world.storage node⟩]
    storage := Function.update world.storage node
      (insert world.entries.length (world.storage node)) }

variable [DecidableEq Process]

def keep (process : Process) (handle : Handle Node) : World Node Process :=
  { world with handles := Function.update world.handles process (some handle) }

def drop (process : Process) : World Node Process :=
  { world with handles := Function.update world.handles process none }

def store (node : Node) (ids : Finset ℕ) : World Node Process :=
  { world with storage := Function.update world.storage node ids }

variable (floats : Json.Floats) (creation : Creation)
  (commit : Node → Oid → Except String Unit)

/-- A rejected method changes nothing. -/
def step (world : World Node Process) : Event Node Process → Option (World Node Process)
  | .getMut process node read order =>
      if (∀ id ∈ read, id < world.entries.length) ∧ Closed world.past read ∧
          Arranges world.past read order then
        (world.view creation (commit node) order).toOption.map fun _ =>
          world.keep process ⟨node, order⟩
      else none
  | .call process signer method timestamp order => do
      let handle ← world.handles process
      let release ← (world.view creation (commit handle.node) handle.order).toOption
      match method.transaction floats release with
      | .error _ => some world
      | .ok actions =>
          let next := world.sign handle.node ⟨signer, actions, timestamp⟩
          if Arranges next.past (next.storage handle.node) order then
            some (next.keep process ⟨handle.node, order⟩)
          else none
  | .close process => some (world.drop process)
  | .fetch node ids =>
      if (∀ id ∈ ids, id < world.entries.length) ∧ Closed world.past ids then
        some (world.store node (world.storage node ∪ ids))
      else none
  | .remove node kept =>
      if kept ⊆ world.storage node ∧ Closed world.past kept then
        some (world.store node kept)
      else none

/-- No refs are removed from a storage while a process has its release open, and what is opened
was read from entries the storage still has. -/
def KeepsOpened (world : World Node Process) : Event Node Process → Prop
  | .getMut _ node read _ => read ⊆ world.storage node
  | .remove node _ => ∀ process handle, world.handles process = some handle → handle.node ≠ node
  | _ => True

end Steps

/-! ## What a step can do -/

section Cases

variable {Node Process : Type} [DecidableEq Node] [DecidableEq Process] {floats : Json.Floats}
  {creation : Creation} {commit : Node → Oid → Except String Unit}
  {permitted : World Node Process → Event Node Process → Prop} {world next : World Node Process}

/-- The ways a world changes by permitted steps. -/
inductive Change (floats : Json.Floats) (creation : Creation)
    (commit : Node → Oid → Except String Unit)
    (permitted : World Node Process → Event Node Process → Prop) (world : World Node Process) :
    World Node Process → Prop
  | same : Change floats creation commit permitted world world
  | opened (process : Process) (node : Node) (read : Finset ℕ) (order : List ℕ)
      (hpermitted : permitted world (.getMut process node read order))
      (horder : Arranges world.past read order) :
      Change floats creation commit permitted world (world.keep process ⟨node, order⟩)
  | signed (process : Process) (handle : Handle Node) (release : Release) (signer : Did)
      (method : Method) (actions : List Action) (timestamp : Timestamp) (order : List ℕ)
      (hpermitted : permitted world (.call process signer method timestamp order))
      (hhandle : world.handles process = some handle)
      (hview : world.view creation (commit handle.node) handle.order = .ok release)
      (hactions : method.transaction floats release = .ok actions)
      (horder : Arranges (world.sign handle.node ⟨signer, actions, timestamp⟩).past
        ((world.sign handle.node ⟨signer, actions, timestamp⟩).storage handle.node) order) :
      Change floats creation commit permitted world
        ((world.sign handle.node ⟨signer, actions, timestamp⟩).keep process
          ⟨handle.node, order⟩)
  | closed (process : Process) : Change floats creation commit permitted world (world.drop process)
  | fetched (node : Node) (ids : Finset ℕ) (hids : ∀ id ∈ ids, id < world.entries.length)
      (hclosed : Closed world.past ids) :
      Change floats creation commit permitted world
        (world.store node (world.storage node ∪ ids))
  | removed (node : Node) (kept : Finset ℕ) (hpermitted : permitted world (.remove node kept))
      (hkept : kept ⊆ world.storage node) (hclosed : Closed world.past kept) :
      Change floats creation commit permitted world (world.store node kept)

theorem change_of_step {event : Event Node Process} (hpermitted : permitted world event)
    (hstep : world.step floats creation commit event = some next) :
    Change floats creation commit permitted world next := by
  cases event with
  | getMut process node read order =>
      rw [step] at hstep
      split at hstep
      · rename_i hread
        obtain ⟨release, -, rfl⟩ := Option.map_eq_some_iff.mp hstep
        exact .opened process node read order hpermitted hread.2.2
      · contradiction
  | call process signer method timestamp order =>
      simp only [step, Option.bind_eq_bind, Option.bind_eq_some_iff] at hstep
      obtain ⟨handle, hhandle, release, hview, hstep⟩ := hstep
      split at hstep
      · obtain rfl := Option.some.inj hstep
        exact .same
      · rename_i actions hactions
        split at hstep
        · rename_i horder
          obtain rfl := Option.some.inj hstep
          exact .signed process handle release signer method actions timestamp order hpermitted
            hhandle (toOption_eq_some_iff.mp hview) hactions horder
        · contradiction
  | close process =>
      obtain rfl := Option.some.inj hstep
      exact .closed process
  | fetch node ids =>
      rw [step] at hstep
      split at hstep
      · rename_i hids
        obtain rfl := Option.some.inj hstep
        exact .fetched node ids hids.1 hids.2
      · contradiction
  | remove node kept =>
      rw [step] at hstep
      split at hstep
      · rename_i hkept
        obtain rfl := Option.some.inj hstep
        exact .removed node kept hpermitted hkept.1 hkept.2
      · contradiction

end Cases

end World

end RadicleArtifact.Replicas
