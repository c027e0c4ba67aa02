import RadicleArtifact.Library.Transition
import RadicleArtifact.Node.Service

/-!
# The server

Every accepted connection has a handler of its own, and handlers run side by side: a request
is a sequence of calls of the store, and those of other connections may come between any two.
A shutdown stops the accept loop, which then waits for the handlers that are still running.
-/

namespace RadicleArtifact.Node

open RadicleArtifact.Core
open RadicleArtifact.Library
open RadicleArtifact.Library.Utf8 (OsString)

/-! ## Requests, one call of the store at a time -/

/-- A call of the store that concerns the names of tags. -/
inductive TagEvent where
  | set (name : List Byte)
  | listed (names : List (List Byte))
  | deleted (name : List Byte) (count : ℕ)
  deriving DecidableEq

/-- Where a request is. -/
inductive Stage (Payload : Type) where
  | received
  /-- A seed has looked for its tag.  Next: import. -/
  | checked (tree : FileTree OsString (List UInt8)) (wasAlready : Bool)
  /-- Next: set the tag. -/
  | imported (wasAlready : Bool) (hash : Hash)
  /-- An unseed of every release has listed the tags.  Next: delete the first of the names. -/
  | deleting (index removed : ℕ) (names : List (List Byte))
  /-- A streaming request has the artifact in the store.  Next: set the tag, if asked to. -/
  | fetched
  /-- The stream is over, and whether a tag was set. -/
  | streamed (tagged : Bool)
  | answered (result : CommandResult Payload)

/-- The triple a request asks to seed. -/
def seedsOf : Command → Option Triple
  | .seed rid release cid _ _ _ => some (rid, release, cid)
  | .fetch rid cid _ seed => seed.map fun release => (rid, release, cid)
  | .download rid cid _ _ seed => seed.map fun release => (rid, release, cid)
  | _ => none

def streams : Command → Bool
  | .export _ _ => true
  | .fetch _ _ _ _ => true
  | .download _ _ _ _ _ => true
  | _ => false

section Advance

variable {blake3 : Blake3} (ctx : DispatchCtx blake3) (run : RequestRun)
  (state : NodeState blake3)

/-- The node, the request and the tags after a call of the store. -/
abbrev Advanced (blake3 : Blake3) (Payload : Type) : Type :=
  Option (NodeState blake3 × Stage Payload × Option TagEvent)

def answerWith {Payload : Type} (result : CommandResult Payload) : Advanced blake3 Payload :=
  some (state, .answered result, none)

def advanceSeed (rid release : Oid) (cid : Cid) (path : PathBuf) (kind : ArtifactKind) :
    Stage SeedReceipt → Advanced blake3 SeedReceipt
  | .received =>
      match run.file path with
      | none => answerWith state (.error ⟨.pathNotFound, "path not found: " ++ ctx.pathText path⟩)
      | some tree =>
          match run.isSeeded ctx.bytes state.tags rid release cid with
          | .error err => answerWith state (.error err.toCommandError)
          | .ok wasAlready => some (state, .checked tree wasAlready, none)
  | .checked tree wasAlready =>
      match importArtifact ctx run state.blobs tree cid kind with
      | (blobs, .error err) =>
          answerWith { state with blobs := blobs } (.error err.toCommandError)
      | (blobs, .ok hash) => some ({ state with blobs := blobs }, .imported wasAlready hash, none)
  | .imported wasAlready hash =>
      match run.tagSeeded ctx.bytes state.tags rid release cid hash with
      | .error err => answerWith state (.error err.toCommandError)
      | .ok tags =>
          some ({ state with tags := tags },
            .answered (.okay
              { rid := rid
                cid := cid
                endpointId := ctx.endpointId
                bytes := .ofNat (artifactSizeFor ctx.iroh state.blobs cid hash)
                wasNew := !wasAlready }),
            some (.set (Tags.seededTag ctx.bytes rid release cid)))
  | _ => none

/-- One release: its tag is deleted at once. -/
def advanceUnseed (rid release : Oid) (cid : Cid) :
    Stage UnseedReceipt → Advanced blake3 UnseedReceipt
  | .received =>
      match run.delete 0 with
      | some err =>
          answerWith state (.error (ShareError.iroh ("delete seeded tag: " ++ err)).toCommandError)
      | none =>
          let name := Tags.seededTag ctx.bytes rid release cid
          let (count, tags) := state.tags.delete name
          some ({ state with tags := tags }, .answered (.okay ⟨rid, cid, decide (count > 0)⟩),
            some (.deleted name count))
  | _ => none

/-- The names an unseed of every release lists. -/
def listedNames (bytes : CidBytes) (tags : Tags) (rid : RepoId) (cid : Cid) : List (List Byte) :=
  ((tags.listPrefix (Tags.seededRidPrefix rid)).map Prod.fst).filter (Tags.namesCid bytes cid)

/-- Every release: the names are listed first, and deleted one by one. -/
def advanceUnseedAll (rid : RepoId) (cid : Cid) :
    Stage UnseedReceipt → Advanced blake3 UnseedReceipt
  | .received =>
      match run.listing with
      | some fault => answerWith state (.error fault.error.toCommandError)
      | none =>
          let names := listedNames ctx.bytes state.tags rid cid
          some (state, .deleting 0 0 names, some (.listed names))
  | .deleting _ removed [] => answerWith state (.okay ⟨rid, cid, decide (removed > 0)⟩)
  | .deleting index removed (name :: names) =>
      match run.delete index with
      | some err =>
          answerWith state (.error (ShareError.iroh ("delete seeded tag: " ++ err)).toCommandError)
      | none =>
          let (count, tags) := state.tags.delete name
          some ({ state with tags := tags }, .deleting (index + 1) (removed + count) names,
            some (.deleted name count))
  | _ => none

/-- The tag a streaming request asked for is set last. -/
def advanceFetched {Payload : Type} :
    Option Triple → Advanced blake3 Payload
  | none => some (state, .streamed false, none)
  | some (rid, release, cid) =>
      match cidToBlake3Hash cid with
      | .error _ => some (state, .streamed false, none)
      | .ok hash =>
          match run.tagSeeded ctx.bytes state.tags rid release cid hash with
          | .error _ => some (state, .streamed false, none)
          | .ok tags =>
              some ({ state with tags := tags }, .streamed true,
                some (.set (Tags.seededTag ctx.bytes rid release cid)))

/-- The next call of the store. -/
def advance : (cmd : Command) → Stage (replyTo cmd).Payload →
    Advanced blake3 (replyTo cmd).Payload
  | .seed rid release cid path kind _, stage =>
      advanceSeed ctx run state rid release cid path kind stage
  | .unseed rid (some release) cid, stage => advanceUnseed ctx run state rid release cid stage
  | .unseed rid none cid, stage => advanceUnseedAll ctx run state rid cid stage
  | cmd, .received =>
      (dispatch ctx run state cmd).map fun (next, result) => (next, .answered result, none)
  | cmd, .fetched => advanceFetched ctx run state (seedsOf cmd)
  | _, _ => none

end Advance

/-! ## A request alone -/

section Alone

variable {blake3 : Blake3} {ctx : DispatchCtx blake3} {run : RequestRun}

/-- A request runs to its answer with no call of another request between its own. -/
inductive Settles (ctx : DispatchCtx blake3) (run : RequestRun) (cmd : Command) :
    NodeState blake3 → Stage (replyTo cmd).Payload → NodeState blake3 →
      CommandResult (replyTo cmd).Payload → Prop
  | answered (state : NodeState blake3) (result : CommandResult (replyTo cmd).Payload) :
      Settles ctx run cmd state (.answered result) state result
  | advance {state next final : NodeState blake3} {stage after : Stage (replyTo cmd).Payload}
      (event : Option TagEvent) {result : CommandResult (replyTo cmd).Payload}
      (hadvance : advance ctx run state cmd stage = some (next, after, event))
      (hrest : Settles ctx run cmd next after final result) :
      Settles ctx run cmd state stage final result

theorem Settles.unique {cmd : Command} {state final final' : NodeState blake3}
    {stage : Stage (replyTo cmd).Payload} {result result' : CommandResult (replyTo cmd).Payload}
    (hsettles : Settles ctx run cmd state stage final result)
    (hsettles' : Settles ctx run cmd state stage final' result') :
    final = final' ∧ result = result' := by
  induction hsettles with
  | answered state result =>
      cases hsettles' with
      | answered => exact ⟨rfl, rfl⟩
      | advance event hadvance hrest =>
          cases cmd with
          | unseed rid release cid => cases release <;> contradiction
          | _ => contradiction
  | advance event hadvance hrest ih =>
      cases hsettles' with
      | answered =>
          cases cmd with
          | unseed rid release cid => cases release <;> contradiction
          | _ => contradiction
      | advance event' hadvance' hrest' =>
          obtain ⟨rfl, rfl, rfl⟩ := Option.some.inj (hadvance.symm.trans hadvance')
          exact ih hrest'

section Commands

variable {state next final : NodeState blake3} {rid release : Oid} {cid : Cid}
  (event : Option TagEvent)

theorem settles_of_advanceSeed {path : PathBuf} {kind : ArtifactKind} {mode : ImportMode}
    {stage after : Stage SeedReceipt} {result : CommandResult SeedReceipt}
    (hadvance : advanceSeed ctx run state rid release cid path kind stage =
      some (next, after, event))
    (hrest : Settles ctx run (.seed rid release cid path kind mode) next after final result) :
    Settles ctx run (.seed rid release cid path kind mode) state stage final result :=
  .advance event hadvance hrest

theorem settles_of_advanceUnseed {stage after : Stage UnseedReceipt}
    {result : CommandResult UnseedReceipt}
    (hadvance : advanceUnseed ctx run state rid release cid stage = some (next, after, event))
    (hrest : Settles ctx run (.unseed rid (some release) cid) next after final result) :
    Settles ctx run (.unseed rid (some release) cid) state stage final result :=
  .advance event hadvance hrest

theorem settles_of_advanceUnseedAll {stage after : Stage UnseedReceipt}
    {result : CommandResult UnseedReceipt}
    (hadvance : advanceUnseedAll ctx run state rid cid stage = some (next, after, event))
    (hrest : Settles ctx run (.unseed rid none cid) next after final result) :
    Settles ctx run (.unseed rid none cid) state stage final result :=
  .advance event hadvance hrest

end Commands

section Seed

variable {rid release : Oid} {cid : Cid} {path : PathBuf} {kind : ArtifactKind}
  {mode : ImportMode} {tree : FileTree OsString (List UInt8)} {wasAlready : Bool}
  {blobs : BlobStore blake3} {hash : Hash} {state next : NodeState blake3}
  {result : CommandResult SeedReceipt}

/-- What is left of a seed after the import. -/
theorem settles_imported (hfile : run.file path = some tree)
    (hseeded : run.isSeeded ctx.bytes state.tags rid release cid = .ok wasAlready)
    (himport : importArtifact ctx run state.blobs tree cid kind = (blobs, .ok hash))
    (hresult : seedResponse ctx run state rid release cid path kind = (next, result)) :
    Settles ctx run (.seed rid release cid path kind mode) { state with blobs := blobs }
      (.imported wasAlready hash) next result := by
  cases htag : run.tagSeeded ctx.bytes state.tags rid release cid hash with
  | error err =>
      simp only [seedResponse, hfile, hseeded, seedArtifact, himport, htag] at hresult
      obtain ⟨rfl, rfl⟩ := Prod.mk.inj hresult
      refine settles_of_advanceSeed none ?_ (.answered _ _)
      simp only [advanceSeed, htag, answerWith]
      rfl
  | ok tags =>
      simp only [seedResponse, hfile, hseeded, seedArtifact, himport, htag] at hresult
      obtain ⟨rfl, rfl⟩ := Prod.mk.inj hresult
      refine settles_of_advanceSeed (some (.set (Tags.seededTag ctx.bytes rid release cid))) ?_
        (.answered _ _)
      simp only [advanceSeed, htag]
      rfl

/-- What is left of a seed once it has looked for its tag. -/
theorem settles_checked (hfile : run.file path = some tree)
    (hseeded : run.isSeeded ctx.bytes state.tags rid release cid = .ok wasAlready)
    (hresult : seedResponse ctx run state rid release cid path kind = (next, result)) :
    Settles ctx run (.seed rid release cid path kind mode) state (.checked tree wasAlready)
      next result := by
  cases himport : importArtifact ctx run state.blobs tree cid kind with
  | mk blobs imported =>
      cases imported with
      | error err =>
          simp only [seedResponse, hfile, hseeded, seedArtifact, himport] at hresult
          obtain ⟨rfl, rfl⟩ := Prod.mk.inj hresult
          refine settles_of_advanceSeed none ?_ (.answered _ _)
          simp only [advanceSeed, himport, answerWith]
          rfl
      | ok hash =>
          refine settles_of_advanceSeed none ?_ (settles_imported hfile hseeded himport hresult)
          simp only [advanceSeed, himport]
          rfl

theorem settles_seed
    (hresult : seedResponse ctx run state rid release cid path kind = (next, result)) :
    Settles ctx run (.seed rid release cid path kind mode) state .received next result := by
  cases hfile : run.file path with
  | none =>
      simp only [seedResponse, hfile] at hresult
      obtain ⟨rfl, rfl⟩ := Prod.mk.inj hresult
      refine settles_of_advanceSeed none ?_ (.answered _ _)
      simp only [advanceSeed, hfile, answerWith]
      rfl
  | some tree =>
      cases hseeded : run.isSeeded ctx.bytes state.tags rid release cid with
      | error err =>
          simp only [seedResponse, hfile, hseeded] at hresult
          obtain ⟨rfl, rfl⟩ := Prod.mk.inj hresult
          refine settles_of_advanceSeed none ?_ (.answered _ _)
          simp only [advanceSeed, hfile, hseeded, answerWith]
          rfl
      | ok wasAlready =>
          refine settles_of_advanceSeed none ?_ (settles_checked hfile hseeded hresult)
          simp only [advanceSeed, hfile, hseeded]
          rfl

end Seed

theorem settles_unseed {rid release : Oid} {cid : Cid} {state next : NodeState blake3}
    {result : CommandResult UnseedReceipt}
    (hresult : unseedResponse ctx run state rid (some release) cid = (next, result)) :
    Settles ctx run (.unseed rid (some release) cid) state .received next result := by
  simp only [unseedResponse, RequestRun.unseed, RequestRun.untagSeeded] at hresult
  cases hdelete : run.delete 0 with
  | some err =>
      simp only [hdelete] at hresult
      obtain ⟨rfl, rfl⟩ := Prod.mk.inj hresult
      refine settles_of_advanceUnseed none ?_ (.answered _ _)
      simp only [advanceUnseed, hdelete, answerWith]
      rfl
  | none =>
      simp only [hdelete] at hresult
      obtain ⟨rfl, rfl⟩ := Prod.mk.inj hresult
      let name := Tags.seededTag ctx.bytes rid release cid
      refine settles_of_advanceUnseed (some (.deleted name (state.tags.delete name).1)) ?_
        (.answered _ _)
      simp only [advanceUnseed, hdelete]
      rfl

/-- How an unseed of every release is answered. -/
def answerRemoved (rid : RepoId) (cid : Cid) : Except ShareError ℕ → CommandResult UnseedReceipt
  | .error err => .error err.toCommandError
  | .ok removed => .okay ⟨rid, cid, decide (removed > 0)⟩

/-- What is left of an unseed of every release once its names are listed. -/
theorem settles_deleteEach {rid : RepoId} {cid : Cid} {index removed : ℕ} {tags : Tags}
    {names : List (List Byte)} {state : NodeState blake3} {after : Tags}
    {outcome : Except ShareError ℕ}
    (houtcome : run.deleteEach index removed tags names = (after, outcome)) :
    Settles ctx run (.unseed rid none cid) { state with tags := tags }
      (.deleting index removed names) { state with tags := after }
      (answerRemoved rid cid outcome) := by
  induction names generalizing index removed tags with
  | nil =>
      obtain ⟨rfl, rfl⟩ := Prod.mk.inj houtcome
      refine settles_of_advanceUnseedAll none ?_ (.answered _ _)
      simp only [advanceUnseedAll, answerWith]
      rfl
  | cons name names ih =>
      rw [RequestRun.deleteEach] at houtcome
      cases hdelete : run.delete index with
      | some err =>
          simp only [hdelete] at houtcome
          obtain ⟨rfl, rfl⟩ := Prod.mk.inj houtcome
          refine settles_of_advanceUnseedAll none ?_ (.answered _ _)
          simp only [advanceUnseedAll, hdelete, answerWith]
          rfl
      | none =>
          simp only [hdelete] at houtcome
          refine settles_of_advanceUnseedAll (some (.deleted name (tags.delete name).1)) ?_
            (ih houtcome)
          simp only [advanceUnseedAll, hdelete]
          rfl

theorem settles_unseedAll {rid : RepoId} {cid : Cid} {state next : NodeState blake3}
    {result : CommandResult UnseedReceipt}
    (hresult : unseedResponse ctx run state rid none cid = (next, result)) :
    Settles ctx run (.unseed rid none cid) state .received next result := by
  simp only [unseedResponse, RequestRun.unseed, RequestRun.untagAll] at hresult
  cases hlisting : run.listing with
  | some fault =>
      simp only [hlisting] at hresult
      obtain ⟨rfl, rfl⟩ := Prod.mk.inj hresult
      refine settles_of_advanceUnseedAll none ?_ (.answered _ _)
      simp only [advanceUnseedAll, hlisting, answerWith]
      rfl
  | none =>
      simp only [hlisting] at hresult
      cases heach : run.deleteEach 0 0 state.tags (listedNames ctx.bytes state.tags rid cid) with
      | mk after outcome =>
          have hanswer : { state with tags := after } = next ∧
              answerRemoved rid cid outcome = result := by
            rw [← listedNames, heach] at hresult
            cases outcome <;> exact Prod.mk.inj hresult
          obtain ⟨rfl, rfl⟩ := hanswer
          refine settles_of_advanceUnseedAll
            (some (.listed (listedNames ctx.bytes state.tags rid cid))) ?_
            (settles_deleteEach heach)
          simp only [advanceUnseedAll, hlisting]
          rfl

/-- Alone, a one-shot request comes to what `dispatch` makes of it, and to nothing else. -/
theorem settles_iff_dispatch {cmd : Command} (hcmd : streams cmd = false)
    {state final : NodeState blake3} {result : CommandResult (replyTo cmd).Payload} :
    Settles ctx run cmd state .received final result ↔
      dispatch ctx run state cmd = some (final, result) := by
  have hdispatch : ∀ next answer, dispatch ctx run state cmd = some (next, answer) →
      Settles ctx run cmd state .received next answer := by
    intro next answer hdone
    cases cmd with
    | seed rid release cid path kind mode => exact settles_seed (Option.some.inj hdone)
    | unseed rid release cid =>
        cases release with
        | some release => exact settles_unseed (Option.some.inj hdone)
        | none => exact settles_unseedAll (Option.some.inj hdone)
    | «export» cid dest => contradiction
    | fetch rid cid locations seed => contradiction
    | download rid cid locations dest seed => contradiction
    | _ =>
        obtain ⟨rfl, rfl⟩ := Prod.mk.inj (Option.some.inj hdone)
        exact .advance none rfl (.answered _ _)
  refine ⟨fun hsettles => ?_, hdispatch final result⟩
  cases hdone : dispatch ctx run state cmd with
  | none => cases cmd <;> contradiction
  | some served =>
      obtain ⟨rfl, rfl⟩ := hsettles.unique (hdispatch served.1 served.2 hdone)
      rfl

/-- A streaming request does not begin as the others do. -/
theorem dispatch_of_settles {cmd : Command} {state final : NodeState blake3}
    {result : CommandResult (replyTo cmd).Payload}
    (hsettles : Settles ctx run cmd state .received final result) :
    dispatch ctx run state cmd = some (final, result) := by
  cases hcmd : streams cmd with
  | false => exact (settles_iff_dispatch hcmd).mp hsettles
  | true =>
      cases hsettles with
      | advance event hadvance hrest => cases cmd <;> contradiction

end Alone

/-! ## Connections -/

/-- A request whose command has been read. -/
structure Request where
  cmd : Command
  run : RequestRun
  stage : Stage (replyTo cmd).Payload

structure Handler where
  /-- None until the command has been read. -/
  request : Option Request
  running : Bool

/-- Where `run` is. -/
inductive Loop where
  | accepting
  | draining
  /-- Returned, and whether the wait for the handlers was given up. -/
  | down (givenUp : Bool)
  deriving DecidableEq

structure Server (blake3 : Blake3) where
  node : NodeState blake3
  /-- In the order in which the connections were accepted. -/
  handlers : List Handler
  inFlight : ℕ
  loop : Loop
  /-- The calls that concern tags, oldest first, with the connections that made them; nothing
  reads it. -/
  log : List (ℕ × TagEvent)

inductive ServerEvent where
  /-- SIGTERM or SIGINT. -/
  | signal
  | accept
  | receive (connection : ℕ) (cmd : Command) (run : RequestRun)
  | advance (connection : ℕ)
  /-- A streaming request has brought the artifact into the store. -/
  | fetch (connection : ℕ)
  /-- No command can be read, or a streaming request fails or loses its client. -/
  | hangUp (connection : ℕ)
  /-- The response is written, if it can be, and the handler returns. -/
  | close (connection : ℕ)
  /-- The accept loop receives the shutdown. -/
  | stop
  /-- The wait ends: no handler is left. -/
  | drained
  /-- The wait ends: `DRAIN_TIMEOUT` is over. -/
  | giveUp

namespace Server

variable {blake3 : Blake3} (ctx : DispatchCtx blake3) (server : Server blake3)

/-- A node that was just started on its tags. -/
def start (node : NodeState blake3) : Server blake3 :=
  ⟨node, [], 0, .accepting, []⟩

def setHandler (connection : ℕ) (handler : Handler) : Server blake3 :=
  { server with handlers := server.handlers.set connection handler }

/-- The handler returns and is counted off. -/
def finish (connection : ℕ) (handler : Handler) : Server blake3 :=
  { server.setHandler connection { handler with running := false } with
    inFlight := server.inFlight - 1 }

/-- The handler of a connection, unless it has returned. -/
def runningHandler (connection : ℕ) : Option Handler :=
  server.handlers[connection]?.filter Handler.running

def receive (connection : ℕ) (cmd : Command) (run : RequestRun) : Option (Server blake3) := do
  let handler ← server.runningHandler connection
  match handler.request with
  | none => some (server.setHandler connection ⟨some ⟨cmd, run, .received⟩, true⟩)
  | some _ => none

def advanceRequest (connection : ℕ) : Option (Server blake3) := do
  let handler ← server.runningHandler connection
  let request ← handler.request
  let (node, stage, event) ← advance ctx request.run server.node request.cmd request.stage
  return { server.setHandler connection ⟨some { request with stage := stage }, true⟩ with
    node := node
    log := server.log ++ event.toList.map fun event => (connection, event) }

def fetchRequest (connection : ℕ) : Option (Server blake3) := do
  let handler ← server.runningHandler connection
  let request ← handler.request
  match streams request.cmd, request.stage with
  | true, .received =>
      some (server.setHandler connection ⟨some { request with stage := .fetched }, true⟩)
  | _, _ => none

def hangUp (connection : ℕ) : Option (Server blake3) := do
  let handler ← server.runningHandler connection
  match handler.request with
  | none => some (server.finish connection handler)
  | some request =>
      if streams request.cmd then some (server.finish connection handler) else none

def close (connection : ℕ) : Option (Server blake3) := do
  let handler ← server.runningHandler connection
  let request ← handler.request
  match request.stage with
  | .answered _ => some (server.finish connection handler)
  | _ => none

/-- What happens while the node is up. -/
def handle : ServerEvent → Option (Server blake3)
  | .signal => some { server with node := { server.node with stopping := true } }
  | .accept =>
      if server.loop = .accepting then
        some { server with
          handlers := server.handlers ++ [⟨none, true⟩]
          inFlight := server.inFlight + 1 }
      else none
  | .receive connection cmd run => server.receive connection cmd run
  | .advance connection => server.advanceRequest ctx connection
  | .fetch connection => server.fetchRequest connection
  | .hangUp connection => server.hangUp connection
  | .close connection => server.close connection
  | .stop =>
      if server.loop = .accepting ∧ server.node.stopping then
        some { server with loop := .draining }
      else none
  | .drained =>
      if server.loop = .draining ∧ server.inFlight = 0 then
        some { server with loop := .down false }
      else none
  | .giveUp =>
      if server.loop = .draining then some { server with loop := .down true } else none

def step (event : ServerEvent) : Option (Server blake3) :=
  match server.loop with
  | .down _ => none
  | _ => server.handle ctx event

end Server

end RadicleArtifact.Node
