import RadicleArtifact.Library.History
import RadicleArtifact.Node.Server

/-!
# Requests side by side

What holds of the tags and of the handlers in every order of their steps: the log tells which
tags there are, an unseed of every release leaves no tag that is older than its listing, a
seed lasts until an unseed of the same release, no removal is reported twice, and a node that
waits for its handlers cuts none of them off.
-/

namespace RadicleArtifact.Node

open RadicleArtifact.Core
open RadicleArtifact.Library

/-! ## What a call of the store can do -/

namespace Stage

variable {Payload : Type}

/-- Nothing follows but the end of the connection. -/
def ended : Stage Payload → Bool
  | .streamed _ => true
  | .answered _ => true
  | _ => false

/-- The request has set the tag it asked for. -/
def tagged : (cmd : Command) → Stage (replyTo cmd).Payload → Bool
  | .seed _ _ _ _ _ _, .answered (.okay _) => true
  | _, .streamed tagged => tagged
  | _, _ => false

/-- The request tells of a tag that was set or removed, or is about to. -/
def tells : (cmd : Command) → Stage (replyTo cmd).Payload → Bool
  | .seed _ _ _ _ _ _, .answered (.okay _) => true
  | .unseed _ _ _, .answered (.okay _) => true
  | _, .streamed tagged => tagged
  | _, .deleting _ _ _ => true
  | _, _ => false

end Stage

/-- A call of the store, by what it does to the tags. -/
inductive Moves (bytes : CidBytes) (tags : Tags) :
    (cmd : Command) → Stage (replyTo cmd).Payload → Tags → Stage (replyTo cmd).Payload →
      Option TagEvent → Prop
  | quiet (cmd : Command) (stage next : Stage (replyTo cmd).Payload)
      (hsilent : next.tells cmd = false) : Moves bytes tags cmd stage tags next none
  | tag (cmd : Command) (stage next : Stage (replyTo cmd).Payload) (triple : Triple)
      (value : HashAndFormat) (hseeds : seedsOf cmd = some triple)
      (htagged : next.tagged cmd = true) :
      Moves bytes tags cmd stage (tags.insert (Tags.name bytes triple) value) next
        (some (.set (Tags.name bytes triple)))
  | untag (rid release : Oid) (cid : Cid) (stage : Stage UnseedReceipt) (count : ℕ)
      (after : Tags)
      (hdelete : tags.delete (Tags.name bytes (rid, release, cid)) = (count, after)) :
      Moves bytes tags (.unseed rid (some release) cid) stage after
        (.answered (.okay ⟨rid, cid, decide (count > 0)⟩))
        (some (.deleted (Tags.name bytes (rid, release, cid)) count))
  | list (rid : RepoId) (cid : Cid) (stage : Stage UnseedReceipt) :
      Moves bytes tags (.unseed rid none cid) stage tags
        (.deleting 0 0 (listedNames bytes tags rid cid))
        (some (.listed (listedNames bytes tags rid cid)))
  | sweep (rid : RepoId) (cid : Cid) (index removed : ℕ) (name : List Byte)
      (names : List (List Byte)) (count : ℕ) (after : Tags)
      (hdelete : tags.delete name = (count, after)) :
      Moves bytes tags (.unseed rid none cid) (.deleting index removed (name :: names)) after
        (.deleting (index + 1) (removed + count) names) (some (.deleted name count))
  | swept (rid : RepoId) (cid : Cid) (index removed : ℕ) :
      Moves bytes tags (.unseed rid none cid) (.deleting index removed []) tags
        (.answered (.okay ⟨rid, cid, decide (removed > 0)⟩)) none

section Advance

variable {blake3 : Blake3} {ctx : DispatchCtx blake3} {run : RequestRun}
  {state next : NodeState blake3} {event : Option TagEvent}

/-- A tag that is set is inserted. -/
theorem exists_insert_of_tagSeeded {rid release : Oid} {cid : Cid} {hash : Hash} {tags : Tags}
    (htag : run.tagSeeded ctx.bytes state.tags rid release cid hash = .ok tags) :
    ∃ value, tags = state.tags.insert (Tags.name ctx.bytes (rid, release, cid)) value := by
  cases hvalue : tagValue cid hash with
  | error err =>
      simp [RequestRun.tagSeeded, Tags.tagSeeded, hvalue, bind, Except.bind] at htag
  | ok value =>
      cases hset : run.set with
      | some err =>
          simp [RequestRun.tagSeeded, Tags.tagSeeded, hvalue, hset, bind, Except.bind, pure,
            Except.pure] at htag
      | none =>
          simp only [RequestRun.tagSeeded, Tags.tagSeeded, hvalue, hset, bind, Except.bind, pure,
            Except.pure, Except.ok.injEq] at htag
          exact ⟨value, htag.symm⟩

theorem moves_of_advanceSeed {rid release : Oid} {cid : Cid} {path : PathBuf}
    {kind : ArtifactKind} {mode : ImportMode} {stage after : Stage SeedReceipt}
    (hadvance : advanceSeed ctx run state rid release cid path kind stage =
      some (next, after, event)) :
    stage.ended = false ∧
      Moves ctx.bytes state.tags (.seed rid release cid path kind mode) stage next.tags after
        event := by
  cases stage with
  | received =>
      refine ⟨rfl, ?_⟩
      rw [advanceSeed] at hadvance
      split at hadvance
      · obtain ⟨rfl, rfl, rfl⟩ := hadvance
        exact .quiet _ _ _ rfl
      · split at hadvance
        · obtain ⟨rfl, rfl, rfl⟩ := hadvance
          exact .quiet _ _ _ rfl
        · obtain ⟨rfl, rfl, rfl⟩ := hadvance
          exact .quiet _ _ _ rfl
  | checked tree wasAlready =>
      refine ⟨rfl, ?_⟩
      rw [advanceSeed] at hadvance
      split at hadvance
      · obtain ⟨rfl, rfl, rfl⟩ := hadvance
        exact .quiet _ _ _ rfl
      · obtain ⟨rfl, rfl, rfl⟩ := hadvance
        exact .quiet _ _ _ rfl
  | imported wasAlready hash =>
      refine ⟨rfl, ?_⟩
      rw [advanceSeed] at hadvance
      split at hadvance
      · obtain ⟨rfl, rfl, rfl⟩ := hadvance
        exact .quiet _ _ _ rfl
      · rename_i tags htag
        obtain ⟨rfl, rfl, rfl⟩ := hadvance
        obtain ⟨value, rfl⟩ := exists_insert_of_tagSeeded htag
        exact .tag _ _ _ (rid, release, cid) value rfl rfl
  | _ => contradiction

theorem moves_of_advanceUnseed {rid release : Oid} {cid : Cid} {stage after : Stage UnseedReceipt}
    (hadvance : advanceUnseed ctx run state rid release cid stage = some (next, after, event)) :
    stage.ended = false ∧
      Moves ctx.bytes state.tags (.unseed rid (some release) cid) stage next.tags after event := by
  cases stage with
  | received =>
      refine ⟨rfl, ?_⟩
      rw [advanceUnseed] at hadvance
      split at hadvance
      · obtain ⟨rfl, rfl, rfl⟩ := hadvance
        exact .quiet _ _ _ rfl
      · obtain ⟨rfl, rfl, rfl⟩ := hadvance
        exact .untag rid release cid _ _ _ rfl
  | _ => contradiction

theorem moves_of_advanceUnseedAll {rid : RepoId} {cid : Cid} {stage after : Stage UnseedReceipt}
    (hadvance : advanceUnseedAll ctx run state rid cid stage = some (next, after, event)) :
    stage.ended = false ∧
      Moves ctx.bytes state.tags (.unseed rid none cid) stage next.tags after event := by
  cases stage with
  | received =>
      refine ⟨rfl, ?_⟩
      rw [advanceUnseedAll] at hadvance
      split at hadvance
      · obtain ⟨rfl, rfl, rfl⟩ := hadvance
        exact .quiet _ _ _ rfl
      · obtain ⟨rfl, rfl, rfl⟩ := hadvance
        exact .list rid cid _
  | deleting index removed names =>
      refine ⟨rfl, ?_⟩
      cases names with
      | nil =>
          obtain ⟨rfl, rfl, rfl⟩ := hadvance
          exact .swept rid cid index removed
      | cons name names =>
          rw [advanceUnseedAll] at hadvance
          split at hadvance
          · obtain ⟨rfl, rfl, rfl⟩ := hadvance
            exact .quiet _ _ _ rfl
          · obtain ⟨rfl, rfl, rfl⟩ := hadvance
            exact .sweep rid cid index removed name names _ _ rfl
  | _ => contradiction

theorem moves_of_advanceFetched (run : RequestRun) {cmd : Command}
    {stage after : Stage (replyTo cmd).Payload}
    (hsilent : ∀ tagged : Bool, (Stage.streamed tagged : Stage (replyTo cmd).Payload).tells cmd =
      tagged ∧ (Stage.streamed tagged : Stage (replyTo cmd).Payload).tagged cmd = tagged)
    (hadvance : advanceFetched ctx run state (seedsOf cmd) = some (next, after, event)) :
    Moves ctx.bytes state.tags cmd stage next.tags after event := by
  rw [advanceFetched.eq_def] at hadvance
  split at hadvance
  · obtain ⟨rfl, rfl, rfl⟩ := hadvance
    exact .quiet _ _ _ (hsilent false).1
  · rename_i rid release cid hseeds
    split at hadvance
    · obtain ⟨rfl, rfl, rfl⟩ := hadvance
      exact .quiet _ _ _ (hsilent false).1
    · split at hadvance
      · obtain ⟨rfl, rfl, rfl⟩ := hadvance
        exact .quiet _ _ _ (hsilent false).1
      · rename_i tags htag
        obtain ⟨rfl, rfl, rfl⟩ := hadvance
        obtain ⟨value, rfl⟩ := exists_insert_of_tagSeeded htag
        exact .tag _ _ _ (rid, release, cid) value hseeds (hsilent true).2

/-- A call of the store goes on from where the request is. -/
theorem moves_of_advance {cmd : Command} {stage after : Stage (replyTo cmd).Payload}
    (hadvance : advance ctx run state cmd stage = some (next, after, event)) :
    stage.ended = false ∧ Moves ctx.bytes state.tags cmd stage next.tags after event := by
  cases cmd with
  | seed rid release cid path kind mode => exact moves_of_advanceSeed hadvance
  | unseed rid release cid =>
      cases release with
      | some release => exact moves_of_advanceUnseed hadvance
      | none => exact moves_of_advanceUnseedAll hadvance
  | _ =>
      cases stage with
      | fetched => exact ⟨rfl, moves_of_advanceFetched run (fun _ => ⟨rfl, rfl⟩) hadvance⟩
      | received =>
          first
          | contradiction
          | obtain ⟨rfl, rfl, rfl⟩ := hadvance
            exact ⟨rfl, .quiet _ _ _ rfl⟩
      | _ => contradiction

end Advance

/-! ## What a step of the server can do -/

namespace Server

variable {blake3 : Blake3} {ctx : DispatchCtx blake3} {server next : Server blake3}

/-- The request of a connection, once its command has been read. -/
def request (server : Server blake3) (connection : ℕ) : Option Request :=
  server.handlers[connection]?.bind Handler.request

inductive Change (ctx : DispatchCtx blake3) (server : Server blake3) : Server blake3 → Prop
  | signal : Change ctx server { server with node := { server.node with stopping := true } }
  | accept : Change ctx server
      { server with
        handlers := server.handlers ++ [⟨none, true⟩]
        inFlight := server.inFlight + 1 }
  | receive (connection : ℕ) (cmd : Command) (run : RequestRun)
      (hhandler : server.handlers[connection]? = some ⟨none, true⟩) :
      Change ctx server (server.setHandler connection ⟨some ⟨cmd, run, .received⟩, true⟩)
  | fetch (connection : ℕ) (request : Request)
      (hhandler : server.handlers[connection]? = some ⟨some request, true⟩)
      (hstage : request.stage = .received) :
      Change ctx server
        (server.setHandler connection ⟨some { request with stage := .fetched }, true⟩)
  | advance (connection : ℕ) (request : Request)
      (hhandler : server.handlers[connection]? = some ⟨some request, true⟩)
      (node : NodeState blake3) (stage : Stage (replyTo request.cmd).Payload)
      (event : Option TagEvent) (hended : request.stage.ended = false)
      (hmoves : Moves ctx.bytes server.node.tags request.cmd request.stage node.tags stage event) :
      Change ctx server
        { server.setHandler connection ⟨some { request with stage := stage }, true⟩ with
          node := node
          log := server.log ++ event.toList.map fun event => (connection, event) }
  | finish (connection : ℕ) (handler : Handler)
      (hhandler : server.handlers[connection]? = some handler) (hrunning : handler.running = true)
      (hdone : ∀ request, handler.request = some request →
        streams request.cmd = true ∨ ∃ result, request.stage = .answered result) :
      Change ctx server (server.finish connection handler)
  | stop : Change ctx server { server with loop := .draining }
  | down (givenUp : Bool) (hempty : givenUp = false → server.inFlight = 0) :
      Change ctx server { server with loop := .down givenUp }

theorem runningHandler_eq_some {connection : ℕ} {handler : Handler}
    (hrunning : server.runningHandler connection = some handler) :
    server.handlers[connection]? = some handler ∧ handler.running = true := by
  rw [runningHandler, Option.filter_eq_some_iff] at hrunning
  exact hrunning

theorem change_of_receive {connection : ℕ} {cmd : Command} {run : RequestRun}
    (hstep : server.receive connection cmd run = some next) : Change ctx server next := by
  rw [receive, Option.bind_eq_bind, Option.bind_eq_some_iff] at hstep
  obtain ⟨⟨request, running⟩, hhandler, hstep⟩ := hstep
  obtain ⟨hhandler, rfl⟩ := runningHandler_eq_some hhandler
  cases request with
  | none =>
      obtain rfl := Option.some.inj hstep
      exact .receive connection cmd run hhandler
  | some request => contradiction

theorem change_of_advance {connection : ℕ}
    (hstep : server.advanceRequest ctx connection = some next) : Change ctx server next := by
  simp only [advanceRequest, Option.bind_eq_bind, Option.bind_eq_some_iff] at hstep
  obtain ⟨⟨request, running⟩, hhandler, request, rfl, ⟨node, stage, event⟩, hadvance, hstep⟩ :=
    hstep
  obtain ⟨hhandler, rfl⟩ := runningHandler_eq_some hhandler
  obtain rfl := Option.some.inj hstep
  obtain ⟨hended, hmoves⟩ := moves_of_advance hadvance
  exact .advance connection request hhandler node stage event hended hmoves

theorem change_of_fetch {connection : ℕ} (hstep : server.fetchRequest connection = some next) :
    Change ctx server next := by
  simp only [fetchRequest, Option.bind_eq_bind, Option.bind_eq_some_iff] at hstep
  obtain ⟨⟨request, running⟩, hhandler, ⟨cmd, run, stage⟩, rfl, hstep⟩ := hstep
  obtain ⟨hhandler, rfl⟩ := runningHandler_eq_some hhandler
  split at hstep
  · rename_i hstage
    obtain rfl := Option.some.inj hstep
    exact .fetch connection ⟨cmd, run, stage⟩ hhandler hstage
  · contradiction

theorem change_of_hangUp {connection : ℕ} (hstep : server.hangUp connection = some next) :
    Change ctx server next := by
  simp only [hangUp, Option.bind_eq_bind, Option.bind_eq_some_iff] at hstep
  obtain ⟨⟨request, running⟩, hhandler, hstep⟩ := hstep
  obtain ⟨hhandler, hrunning⟩ := runningHandler_eq_some hhandler
  cases request with
  | none =>
      obtain rfl := Option.some.inj hstep
      refine .finish connection _ hhandler hrunning fun other hother => ?_
      contradiction
  | some request =>
      by_cases hstreams : streams request.cmd = true
      · simp only [if_pos hstreams] at hstep
        obtain rfl := Option.some.inj hstep
        refine .finish connection _ hhandler hrunning fun other hother => .inl ?_
        obtain rfl := Option.some.inj hother
        exact hstreams
      · simp only [if_neg hstreams] at hstep
        contradiction

theorem change_of_close {connection : ℕ} (hstep : server.close connection = some next) :
    Change ctx server next := by
  simp only [close, Option.bind_eq_bind, Option.bind_eq_some_iff] at hstep
  obtain ⟨⟨request, running⟩, hhandler, ⟨cmd, run, stage⟩, rfl, hstep⟩ := hstep
  obtain ⟨hhandler, rfl⟩ := runningHandler_eq_some hhandler
  cases stage with
  | answered result =>
      obtain rfl := Option.some.inj hstep
      refine .finish connection _ hhandler rfl fun other hother => .inr ?_
      obtain rfl := Option.some.inj hother
      exact ⟨result, rfl⟩
  | _ => contradiction

theorem change_of_handle {event : ServerEvent} (hhandle : server.handle ctx event = some next) :
    Change ctx server next := by
  cases event with
  | signal =>
      obtain rfl := Option.some.inj hhandle
      exact .signal
  | accept =>
      rw [handle] at hhandle
      split at hhandle
      · exact Option.some.inj hhandle ▸ .accept
      · contradiction
  | receive connection cmd run => exact change_of_receive hhandle
  | advance connection => exact change_of_advance hhandle
  | fetch connection => exact change_of_fetch hhandle
  | hangUp connection => exact change_of_hangUp hhandle
  | close connection => exact change_of_close hhandle
  | stop =>
      rw [handle] at hhandle
      split at hhandle
      · exact Option.some.inj hhandle ▸ .stop
      · contradiction
  | drained =>
      rw [handle] at hhandle
      split at hhandle
      · rename_i hempty
        exact Option.some.inj hhandle ▸ .down false fun _ => hempty.2
      · contradiction
  | giveUp =>
      rw [handle] at hhandle
      split at hhandle
      · exact Option.some.inj hhandle ▸ .down true fun hfalse => by contradiction
      · contradiction

/-- A node that has returned does nothing. -/
theorem change_of_step {event : ServerEvent} (hstep : server.step ctx event = some next) :
    (∀ givenUp, server.loop ≠ .down givenUp) ∧ Change ctx server next := by
  rw [step] at hstep
  split at hstep
  · contradiction
  · rename_i hlive
    exact ⟨hlive, change_of_handle hstep⟩

end Server

end RadicleArtifact.Node
