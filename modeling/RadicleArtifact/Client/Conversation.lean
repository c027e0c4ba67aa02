import RadicleArtifact.Client.Call
import RadicleArtifact.Library.Transition
import RadicleArtifact.Node.Server

/-!
# Calls one after the other

The node gives every connection a handler of its own, which goes on when its client has given
up.  A handler that nothing runs beside comes to what the call alone comes to, however its
steps and its client's return fall, so calls that each wait for the handlers of those before
do to the node what the answers say.  Handlers that run side by side are another matter: a
seed whose client gave up may set its tag after a later unseed was answered.
-/

namespace RadicleArtifact.Client

open RadicleArtifact.Core
open RadicleArtifact.Library
open RadicleArtifact.Node

/-! ## Handlers and their clients -/

/-- Where the handler of a connection is. -/
inductive HandlerStage where
  | accepted
  | serving (request : Request)
  | returned (answer : Utf8.OsString)

/-- A call that was made, its handler, and what the client returned. -/
structure Made where
  call : OneShot
  handler : HandlerStage
  result : Option (Except ClientError (replyTo call.cmd).Payload)

/-- What a call returned, once its handler has returned as well. -/
def Made.settled (made : Made) : Option Exchange :=
  match made.handler, made.result with
  | .returned _, some result => some ⟨made.call, result⟩
  | _, _ => none

/-- The client reads what the handler writes, or that it writes nothing. -/
def Passage.waits : Passage → Bool
  | .refused _ => false
  | .cut _ _ => false
  | .written _ none => true
  | .written _ (some (received, stop)) => decide (received ≠ 0) || stop.isNone

/-- The steps of a call that was made. -/
inductive CallTurn where
  /-- The handler reads the command. -/
  | read
  /-- Its next call of the store. -/
  | advance
  /-- The response is written, if it can be, and the handler returns. -/
  | close
  /-- The client returns. -/
  | finish

inductive CallEvent where
  /-- A client connects, and writes what it comes to write. -/
  | call (call : OneShot)
  | turn (index : ℕ) (turn : CallTurn)

/-- The node and the calls made to it, oldest first. -/
structure Conversation (blake3 : Blake3) where
  node : NodeState blake3
  calls : List Made

section Turns

variable {blake3 : Blake3} (ctx : DispatchCtx blake3) (codec : WireCodec) (errors : RequestErrors)

/-- The handler of a call that the node has read. -/
def OneShot.received (call : OneShot) : HandlerStage :=
  match call.heard codec with
  | none => .returned []
  | some sent =>
      let line := Utf8.readLine sent
      if line = [] then .returned []
      else
        match Utf8.toStr line with
        | none => .returned []
        | some text =>
            match parseCommand codec errors (Utf8.trimEnd text.toList) with
            | .error err =>
                .returned (Utf8.encodeChars
                  (respond codec .unit (.error err : CommandResult Unit)))
            | .ok cmd => .serving ⟨cmd, call.run, .received⟩

/-- What the client returns when nothing is waited for. -/
def OneShot.returnsEarly (call : OneShot) :
    Option (Except ClientError (replyTo call.cmd).Payload) :=
  match call.passage.waits, encodeCommand codec call.cmd with
  | true, .ok _ => none
  | _, _ => some (call.returns codec [])

def Made.turn (node : NodeState blake3) (made : Made) : CallTurn → Option (NodeState blake3 × Made)
  | .read =>
      match made.handler with
      | .accepted => some (node, { made with handler := made.call.received codec errors })
      | _ => none
  | .advance =>
      match made.handler with
      | .serving request =>
          (advance ctx request.run node request.cmd request.stage).map fun (next, stage, _) =>
            (next, { made with handler := .serving { request with stage := stage } })
      | _ => none
  | .close =>
      match made.handler with
      | .serving ⟨cmd, _, .answered result⟩ =>
          let answer := respond codec ((replyTo cmd).form codec.toWireTexts) result
          some (node, { made with handler := .returned (Utf8.encodeChars answer) })
      | _ => none
  | .finish =>
      match made.result, made.handler with
      | some _, _ => none
      | none, .returned answer =>
          some (node, { made with result := some (made.call.returns codec answer) })
      | none, _ =>
          (made.call.returnsEarly codec).map fun result =>
            (node, { made with result := some result })

namespace Conversation

def initial (node : NodeState blake3) : Conversation blake3 :=
  ⟨node, []⟩

/-- What the calls returned that are over. -/
def returned (conversation : Conversation blake3) : List Exchange :=
  conversation.calls.filterMap Made.settled

/-- No client waits, and no handler runs. -/
def Quiet (conversation : Conversation blake3) : Prop :=
  ∀ made ∈ conversation.calls, made.settled.isSome = true

def step (conversation : Conversation blake3) : CallEvent → Option (Conversation blake3)
  | .call call =>
      if oneShot call.cmd then
        let handler : HandlerStage :=
          match call.passage with
          | .refused _ => .returned []
          | _ => .accepted
        some { conversation with calls := conversation.calls ++ [⟨call, handler, none⟩] }
      else none
  | .turn index turn => do
      let made ← conversation.calls[index]?
      let (node, after) ← made.turn ctx codec errors conversation.node turn
      return ⟨node, conversation.calls.set index after⟩

/-- A call is made when the handlers of all calls before it have returned. -/
def WaitsForHandlers (conversation : Conversation blake3) : CallEvent → Prop
  | .call _ => conversation.Quiet
  | .turn _ _ => True

instance : ∀ (conversation : Conversation blake3) (event : CallEvent),
    Decidable (conversation.WaitsForHandlers event)
  | conversation, .call _ =>
      inferInstanceAs (Decidable (∀ made ∈ conversation.calls, made.settled.isSome = true))
  | _, .turn _ _ => inferInstanceAs (Decidable True)

end Conversation

end Turns

/-! ## A handler by itself -/

section Alone

variable {blake3 : Blake3} {ctx : DispatchCtx blake3} {codec : WireCodec}
  {errors : RequestErrors} {state node next : NodeState blake3} {call : OneShot} {made after : Made}

/-- A client that waits for nothing returns the same, whatever its handler answers. -/
theorem returns_of_returnsEarly {result : Except ClientError (replyTo call.cmd).Payload}
    (hearly : call.returnsEarly codec = some result) (answer : Utf8.OsString) :
    call.returns codec answer = result := by
  obtain ⟨cmd, transport, timeout, passage, run⟩ := call
  cases hline : encodeCommand codec cmd with
  | error err =>
      cases passage <;>
        simpa [OneShot.returnsEarly, OneShot.returns, hline, Passage.outcome] using hearly
  | ok line =>
      cases passage with
      | refused err =>
          simpa [OneShot.returnsEarly, OneShot.returns, hline, Passage.waits, Passage.outcome]
            using hearly
      | cut sent stop =>
          simpa [OneShot.returnsEarly, OneShot.returns, hline, Passage.waits, Passage.outcome]
            using hearly
      | written heard lost =>
          rcases lost with - | ⟨received, - | stop⟩
          · simp [OneShot.returnsEarly, hline, Passage.waits] at hearly
          · simp [OneShot.returnsEarly, hline, Passage.waits] at hearly
          · cases received with
            | zero =>
                simpa [OneShot.returnsEarly, OneShot.returns, hline, Passage.waits,
                  Passage.outcome] using hearly
            | succ received => simp [OneShot.returnsEarly, hline, Passage.waits] at hearly

/-- How far a handler is that began at a state of the node and that nothing runs beside. -/
def Underway (ctx : DispatchCtx blake3) (codec : WireCodec) (errors : RequestErrors)
    (state : NodeState blake3) (call : OneShot) (node : NodeState blake3) : HandlerStage → Prop
  | .accepted => node = state
  | .serving request => ∀ final result,
      Settles ctx request.run request.cmd node request.stage final result →
        serve ctx codec errors state call = (final, Utf8.encodeChars
          (respond codec ((replyTo request.cmd).form codec.toWireTexts) result))
  | .returned answer => serve ctx codec errors state call = (node, answer)

theorem underway_received :
    Underway ctx codec errors state call state (call.received codec errors) := by
  unfold OneShot.received
  split
  · rename_i hheard
    rw [Underway, serve, hheard]
  · rename_i sent hheard
    dsimp only
    split
    · rename_i hline
      rw [Underway, serve, hheard]
      simp [handleConnection, hline, Utf8.encodeChars]
    · rename_i hline
      split
      · rename_i hinvalid
        rw [Underway, serve, hheard]
        simp [handleConnection, hline, hinvalid, Utf8.encodeChars]
      · rename_i text htext
        split
        · rename_i err hparse
          rw [Underway, serve, hheard]
          simp [handleConnection, hline, htext, hparse]
        · rename_i cmd hparse
          intro final result hsettles
          have hdispatch := dispatch_of_settles hsettles
          rw [serve, hheard]
          simp [handleConnection, hline, htext, hparse, hdispatch]

/-- A call that was made at a state of the node, the last of all: the handler is underway, and
the client has returned what the call alone returns, if it has returned. -/
structure Made.Sound (ctx : DispatchCtx blake3) (codec : WireCodec) (errors : RequestErrors)
    (state node : NodeState blake3) (made : Made) : Prop where
  handler : Underway ctx codec errors state made.call node made.handler
  result : ∀ result, made.result = some result →
    made.call.returns codec (serve ctx codec errors state made.call).2 = result

/-- A step is one of a call that is not over, and leaves it as sound as it was. -/
theorem Made.Sound.turn (hsound : made.Sound ctx codec errors state node) {turn : CallTurn}
    (hturn : made.turn ctx codec errors node turn = some (next, after)) :
    after.Sound ctx codec errors state next ∧ after.call = made.call := by
  obtain ⟨call, handler, result⟩ := made
  obtain ⟨hhandler, hresult⟩ := hsound
  cases turn with
  | read =>
      cases handler with
      | accepted =>
          obtain ⟨rfl, rfl⟩ := Prod.mk.inj (Option.some.inj hturn)
          obtain rfl : node = state := hhandler
          exact ⟨⟨underway_received, hresult⟩, rfl⟩
      | _ => contradiction
  | advance =>
      cases handler with
      | serving request =>
          obtain ⟨⟨following, stage, event⟩, hadvance, hafter⟩ := Option.map_eq_some_iff.mp hturn
          obtain ⟨rfl, rfl⟩ := Prod.mk.inj hafter
          exact ⟨⟨fun final answer hsettles => hhandler final answer
            (.advance event hadvance hsettles), hresult⟩, rfl⟩
      | _ => contradiction
  | close =>
      cases handler with
      | serving request =>
          obtain ⟨cmd, run, stage⟩ := request
          cases stage with
          | answered answer =>
              obtain ⟨rfl, rfl⟩ := Prod.mk.inj (Option.some.inj hturn)
              exact ⟨⟨hhandler node answer (.answered node answer), hresult⟩, rfl⟩
          | _ => contradiction
      | _ => contradiction
  | finish =>
      cases result with
      | some result => contradiction
      | none =>
          cases handler with
          | returned answer =>
              obtain ⟨rfl, rfl⟩ := Prod.mk.inj (Option.some.inj hturn)
              refine ⟨⟨hhandler, fun result hdone => ?_⟩, rfl⟩
              obtain rfl := Option.some.inj hdone
              rw [show serve ctx codec errors state call = (node, answer) from hhandler]
          | _ =>
              obtain ⟨early, hearly, hafter⟩ := Option.map_eq_some_iff.mp hturn
              obtain ⟨rfl, rfl⟩ := Prod.mk.inj hafter
              refine ⟨⟨hhandler, fun result hdone => ?_⟩, rfl⟩
              obtain rfl := Option.some.inj hdone
              exact returns_of_returnsEarly hearly _

/-- A call that is over takes no more steps. -/
theorem settled_of_turn {turn : CallTurn}
    (hturn : made.turn ctx codec errors node turn = some (next, after)) : made.settled = none := by
  obtain ⟨call, handler, result⟩ := made
  cases handler <;> cases result <;> cases turn <;> first | rfl | contradiction

theorem call_of_settled {returned : Exchange} (hsettled : made.settled = some returned) :
    returned.call = made.call := by
  obtain ⟨call, handler, result⟩ := made
  cases handler <;> cases result <;> first | contradiction | (cases hsettled; rfl)

/-- When it is over, it has come to what it comes to alone. -/
theorem Made.Sound.exchange_of_settled (hsound : made.Sound ctx codec errors state node)
    {returned : Exchange} (hsettled : made.settled = some returned) :
    exchange ctx codec errors state made.call = (node, returned) := by
  obtain ⟨call, handler, result⟩ := made
  cases handler with
  | returned answer =>
      cases result with
      | none => contradiction
      | some result =>
          obtain rfl := Option.some.inj hsettled
          have hserve : serve ctx codec errors state call = (node, answer) := hsound.handler
          have hresult := hsound.result result rfl
          rw [hserve] at hresult
          rw [exchange, hserve]
          simp only [hresult]
  | _ => contradiction

end Alone

/-! ## Calls one after the other -/

/-- What calls made one after the other did. -/
inductive Explains (blake3 : Blake3) : Seeded → List Exchange → Seeded → Prop
  | nil (seeded : Seeded) : Explains blake3 seeded [] seeded
  | cons {seeded middle after : Seeded} {returned : Exchange} {rest : List Exchange}
      (hserved : Served blake3 seeded middle returned)
      (hrest : Explains blake3 middle rest after) :
      Explains blake3 seeded (returned :: rest) after

/-- The calls up to here are over and explain the node. -/
structure Conversation.Explained {blake3 : Blake3} (ctx : DispatchCtx blake3) (seeded : Seeded)
    (start : NodeState blake3) (conversation : Conversation blake3) (after : Seeded) : Prop where
  quiet : conversation.Quiet
  bytes : start.blobs.Extends conversation.node.blobs
  tags : Refines ctx.bytes conversation.node.tags after
  explains : Explains blake3 seeded conversation.returned after

section Conversations

variable {blake3 : Blake3} {ctx : DispatchCtx blake3} {codec : WireCodec}
  {errors : RequestErrors} {start state node : NodeState blake3} {seeded middle after : Seeded}
  {earlier : List Made} {made : Made} {conversation next : Conversation blake3}

theorem Explains.concat {returned : List Exchange} {last : Exchange}
    (hexplains : Explains blake3 seeded returned middle)
    (hserved : Served blake3 middle after last) :
    Explains blake3 seeded (returned ++ [last]) after := by
  induction hexplains with
  | nil seeded => exact .cons hserved (.nil after)
  | cons hfirst hrest ih => exact .cons hfirst (ih hserved)

namespace Conversation

/-- Every call but the last is over, and what the last has come to is what it comes to alone. -/
inductive Follows (ctx : DispatchCtx blake3) (codec : WireCodec) (errors : RequestErrors)
    (seeded : Seeded) (start : NodeState blake3) : Conversation blake3 → Prop
  | quiet {conversation : Conversation blake3} {after : Seeded}
      (hexplained : conversation.Explained ctx seeded start after) :
      Follows ctx codec errors seeded start conversation
  | underway {state node : NodeState blake3} {earlier : List Made} {made : Made} {after : Seeded}
      (hexplained : Explained ctx seeded start ⟨state, earlier⟩ after)
      (hcmd : oneShot made.call.cmd = true) (hsound : made.Sound ctx codec errors state node) :
      Follows ctx codec errors seeded start ⟨node, earlier ++ [made]⟩

theorem Explained.concat (hexplained : Explained ctx seeded start ⟨state, earlier⟩ middle)
    (hcmd : oneShot made.call.cmd = true) (hsound : made.Sound ctx codec errors state node)
    {returned : Exchange} (hsettled : made.settled = some returned) :
    ∃ after, Explained ctx seeded start ⟨node, earlier ++ [made]⟩ after := by
  obtain ⟨after, hafter, hextends, hserved⟩ :=
    served_exchange hcmd hexplained.tags (hsound.exchange_of_settled hsettled)
  refine ⟨after, fun one hone => ?_, hexplained.bytes.trans hextends, hafter, ?_⟩
  · rcases List.mem_append.mp hone with hone | hone
    · exact hexplained.quiet one hone
    · rw [List.mem_singleton.mp hone, hsettled]
      rfl
  · have hreturned : Conversation.returned ⟨node, earlier ++ [made]⟩ =
        Conversation.returned ⟨state, earlier⟩ ++ [returned] := by
      simp [Conversation.returned, hsettled]
    rw [hreturned]
    exact hexplained.explains.concat hserved

theorem Follows.explained (hfollows : Follows ctx codec errors seeded start conversation)
    (hquiet : conversation.Quiet) : ∃ after, conversation.Explained ctx seeded start after := by
  cases hfollows with
  | quiet hexplained => exact ⟨_, hexplained⟩
  | underway hexplained hcmd hsound =>
      have hsettled := hquiet _ (List.mem_append_right _ (List.mem_singleton_self _))
      obtain ⟨returned, hreturned⟩ := Option.isSome_iff_exists.mp hsettled
      exact hexplained.concat hcmd hsound hreturned

theorem Quiet.map_call_returned (hquiet : conversation.Quiet) :
    conversation.returned.map Exchange.call = conversation.calls.map Made.call := by
  obtain ⟨node, calls⟩ := conversation
  rw [returned]
  induction calls with
  | nil => rfl
  | cons made calls ih =>
      obtain ⟨hmade, hcalls⟩ := List.forall_mem_cons.mp hquiet
      obtain ⟨last, hlast⟩ := Option.isSome_iff_exists.mp hmade
      rw [List.filterMap_cons, hlast, List.map_cons, List.map_cons, ih hcalls,
        call_of_settled hlast]

/-- A call that is not over has not returned. -/
theorem returned_of_not_quiet (hearlier : ∀ one ∈ earlier, one.settled.isSome = true)
    (hquiet : ¬ Quiet ⟨node, earlier ++ [made]⟩) :
    returned ⟨node, earlier ++ [made]⟩ = returned ⟨state, earlier⟩ := by
  have hnone : made.settled = none := by
    by_contra hsome
    apply hquiet
    intro one hone
    rcases List.mem_append.mp hone with hone | hone
    · exact hearlier one hone
    · rw [List.mem_singleton.mp hone]
      exact Option.isSome_iff_ne_none.mpr hsome
  simp [returned, hnone]

/-- Only the last call of all is not over. -/
theorem eq_last_of_getElem? (hquiet : ∀ one ∈ earlier, one.settled.isSome = true) {index : ℕ}
    {found : Made} (hfound : (earlier ++ [made])[index]? = some found)
    (hsettled : found.settled = none) :
    index = earlier.length ∧ found = made := by
  rw [List.getElem?_append] at hfound
  split at hfound
  · have hone := hquiet found (List.mem_of_getElem? hfound)
    rw [hsettled] at hone
    contradiction
  · rename_i hlength
    have hzero : index - earlier.length = 0 := by
      have hlt := (List.getElem?_eq_some_iff.mp hfound).1
      rw [List.length_singleton] at hlt
      exact Nat.lt_one_iff.mp hlt
    rw [hzero] at hfound
    exact ⟨by omega, (Option.some.inj hfound).symm⟩

theorem Follows.step (hfollows : Follows ctx codec errors seeded start conversation)
    {event : CallEvent} (hwaits : conversation.WaitsForHandlers event)
    (hstep : conversation.step ctx codec errors event = some next) :
    Follows ctx codec errors seeded start next := by
  cases event with
  | call call =>
      obtain ⟨after, hexplained⟩ := hfollows.explained hwaits
      rw [Conversation.step] at hstep
      split at hstep
      · rename_i hcmd
        obtain rfl := Option.some.inj hstep
        refine .underway hexplained hcmd ⟨?_, fun result hresult => by contradiction⟩
        obtain ⟨cmd, transport, timeout, passage, run⟩ := call
        cases passage with
        | refused err =>
            dsimp only
            rw [Underway, serve, OneShot.heard]
            cases encodeCommand codec cmd <;> rfl
        | _ => rfl
      · contradiction
  | turn index turn =>
      simp only [Conversation.step, Option.bind_eq_bind, Option.bind_eq_some_iff] at hstep
      obtain ⟨found, hfound, ⟨changed, after⟩, hturn, hnext⟩ := hstep
      obtain rfl := Option.some.inj hnext
      have hsettled := settled_of_turn hturn
      cases hfollows with
      | quiet hexplained =>
          have hdone := hexplained.quiet found (List.mem_of_getElem? hfound)
          rw [hsettled] at hdone
          contradiction
      | underway hexplained hcmd hsound =>
          obtain ⟨rfl, rfl⟩ := eq_last_of_getElem? hexplained.quiet hfound hsettled
          obtain ⟨hafter, hcall⟩ := hsound.turn hturn
          dsimp only
          rw [List.set_append_right _ _ le_rfl, Nat.sub_self, List.set_cons_zero]
          exact .underway hexplained (hcall ▸ hcmd) hafter

theorem follows_of_reachable (hstart : Refines ctx.bytes start.tags seeded)
    (hreachable : Reachable (step ctx codec errors) WaitsForHandlers (initial start)
      conversation) : Follows ctx codec errors seeded start conversation := by
  apply hreachable.invariant
  · exact .quiet ⟨fun made hmade => by contradiction, .refl _, hstart, .nil seeded⟩
  · intro conversation event next hfollows hwaits hstep
    exact hfollows.step hwaits hstep

end Conversation

/-- Calls that each wait for the handlers of those before, whatever is lost on the way: each that
returns an answer did to the set of triples what the answer says, each that fails was served
once or not at all and failed in transit, also when its handler went on without it, and when
all handlers have returned the node has the set they leave and all its bytes. -/
theorem one_shot_calls_serve (ctx : DispatchCtx blake3) (codec : WireCodec)
    (errors : RequestErrors) {start : NodeState blake3}
    (hstart : Refines ctx.bytes start.tags seeded) {conversation : Conversation blake3}
    (hreachable : Reachable (Conversation.step ctx codec errors) Conversation.WaitsForHandlers
      (.initial start) conversation) :
    ∃ after, Explains blake3 seeded conversation.returned after ∧
      (conversation.Quiet →
        conversation.returned.map Exchange.call = conversation.calls.map Made.call ∧
          start.blobs.Extends conversation.node.blobs ∧
          Refines ctx.bytes conversation.node.tags after) := by
  have hfollows := Conversation.follows_of_reachable hstart hreachable
  by_cases hquiet : conversation.Quiet
  · obtain ⟨after, hexplained⟩ := hfollows.explained hquiet
    refine ⟨after, hexplained.explains, fun _ => ⟨?_, hexplained.bytes, hexplained.tags⟩⟩
    exact hquiet.map_call_returned
  · cases hfollows with
    | quiet hexplained => exact absurd hexplained.quiet hquiet
    | underway hexplained hcmd hsound =>
        have hexplains := hexplained.explains
        rw [← Conversation.returned_of_not_quiet hexplained.quiet hquiet] at hexplains
        exact ⟨_, hexplains, fun hnow => absurd hnow hquiet⟩

end Conversations

/-- The handler of a command that comes whole serves it. -/
theorem received_of_written {codec : WireCodec} (errors : RequestErrors) {call : OneShot}
    (hvalid : PathsValid call.cmd.paths) {lost : Option (ℕ × Option Stop)}
    (hpassage : call.passage = .written true lost) :
    call.received codec errors = .serving ⟨call.cmd, call.run, .received⟩ := by
  obtain ⟨text, htext, hline⟩ := @exists_encodeCommand codec call.cmd hvalid
  obtain ⟨hbody, hnewline⟩ := body_of_print htext
  have hheard : call.heard codec = some (Utf8.encodeChars (text ++ ['\n'])) := by
    rw [OneShot.heard, hline, hpassage]
    rfl
  have hread : Utf8.readLine (Utf8.encodeChars (text ++ ['\n'])) =
      Utf8.encodeChars (text ++ ['\n']) := by
    rw [hbody]
    exact Utf8.readLine_of_prefix hnewline (List.prefix_refl _)
  have hne : Utf8.encodeChars (text ++ ['\n']) ≠ [] := by
    rw [hbody]
    exact List.append_ne_nil_of_right_ne_nil _ (List.cons_ne_nil _ _)
  have htoStr : Utf8.toStr (Utf8.encodeChars (text ++ ['\n'])) =
      some (String.ofList (text ++ ['\n'])) := by
    rw [Utf8.toStr_eq_some_iff, Utf8.encode, String.toList_ofList]
  have htrim := WireForm.trimEnd_of_print (objects_commandForm codec.toWireTexts) htext
  rw [OneShot.received, hheard]
  dsimp only
  rw [hread, if_neg hne, htoStr]
  dsimp only
  rw [String.toList_ofList, htrim, parseCommand_of_print htext]

/-- The client of a seed gives up before its command is read; an unseed that waits for the handler
finds the tag. -/
theorem one_shot_calls_serve_after_timeout :
    let cid := blake3HashToCid (lengthHash [1]) .blob
    let codec := WireCodec.sample (.filled 20 1) "rad:z2u2CP3ZJzB7ZqE8jHrau19yjpdip" cid
      "bafkr4ih" (.filled 32 3) "ae3q" (by decide) (by decide) (by decide) (by decide)
    let errors : RequestErrors := ⟨fun _ => "", fun _ => "", fun _ => "", fun _ => "", id⟩
    let bytes := CidBytes.sample cid ([0x01, 0x55, 0x1e, 0x20] ++ List.replicate 32 1)
      (by decide)
    let ctx := DispatchCtx.sample lengthHash bytes
    let run := RequestRun.faultless (some (.file [1]))
    let seed : OneShot := ⟨.seed (.filled 20 1) (.filled 20 5) cid (Utf8.encode "app") .blob .copy,
      .sync, 30, .written true (some (0, some .elapsed)), run⟩
    let unseed : OneShot := ⟨.unseed (.filled 20 1) none cid, .tokio, 30, .written true none, run⟩
    ∃ conversation : Conversation lengthHash,
      Reachable (Conversation.step ctx codec errors) Conversation.WaitsForHandlers
        (.initial ⟨.empty lengthHash, ∅, false⟩) conversation ∧
      conversation.returned.map Exchange.call = [seed, unseed] ∧
      ∃ after, Refines bytes conversation.node.tags after ∧
        Explains lengthHash ∅ conversation.returned after := by
  intro cid codec errors bytes ctx run seed unseed
  let start : NodeState lengthHash := ⟨.empty lengthHash, ∅, false⟩
  let step := guarded (Conversation.step ctx codec errors) Conversation.WaitsForHandlers
  have hseed : seed.received codec errors = .serving ⟨seed.cmd, run, .received⟩ :=
    received_of_written errors (List.forall_mem_singleton.mpr ⟨"app", Utf8.toStr_encode _⟩) rfl
  have hunseed : unseed.received codec errors = .serving ⟨unseed.cmd, run, .received⟩ :=
    received_of_written errors (fun _ hpath => absurd hpath List.not_mem_nil) rfl
  let serving : Made := ⟨seed, .serving ⟨seed.cmd, run, .received⟩, some (seed.returns codec [])⟩
  have hserving : Library.run step (.initial start) [.call seed, .turn 0 .finish, .turn 0 .read] =
      some ⟨start, [serving]⟩ := by
    rw [show serving = ⟨seed, seed.received codec errors, some (seed.returns codec [])⟩ by
      rw [hseed]]
    rfl
  let tagged := (Library.run step ⟨start, [serving]⟩
    [.turn 0 .advance, .turn 0 .advance, .turn 0 .advance, .turn 0 .close]).getD (.initial start)
  have htagged : Library.run step ⟨start, [serving]⟩ [.turn 0 .advance, .turn 0 .advance,
      .turn 0 .advance, .turn 0 .close] = some tagged := rfl
  let asked : Conversation lengthHash :=
    ⟨tagged.node, tagged.calls ++ [⟨unseed, .serving ⟨unseed.cmd, run, .received⟩, none⟩]⟩
  have hasked : Library.run step tagged [.call unseed, .turn 1 .read] = some asked := by
    rw [show asked = ⟨tagged.node, tagged.calls ++
      [⟨unseed, unseed.received codec errors, none⟩]⟩ by rw [hunseed]]
    rfl
  have hdone : (Library.run step asked [.turn 1 .advance, .turn 1 .advance, .turn 1 .advance,
      .turn 1 .close, .turn 1 .finish]).map (fun conversation =>
        (conversation.calls.all fun made => made.settled.isSome,
          conversation.returned.map Exchange.call)) = some (true, [seed, unseed]) := rfl
  obtain ⟨final, hfinal, hchecks⟩ := Option.map_eq_some_iff.mp hdone
  obtain ⟨hquiet, hcalls⟩ := Prod.mk.inj hchecks
  have hreachable := (((Reachable.of_run hserving).of_run_from htagged).of_run_from
    hasked).of_run_from hfinal
  have hstart : Refines ctx.bytes start.tags ∅ :=
    .of_foreign fun _ hname => absurd hname Std.ExtTreeMap.not_mem_empty
  obtain ⟨after, hexplains, hover⟩ := one_shot_calls_serve ctx codec errors hstart hreachable
  exact ⟨final, hreachable, hcalls, after,
    (hover fun made hmade => List.all_eq_true.mp hquiet made hmade).2.2, hexplains⟩

end RadicleArtifact.Client
