import RadicleArtifact.Client.Streaming
import RadicleArtifact.Node.Service

/-!
# One-shot calls

A client connects, writes one line, reads one line and closes.  Either side may be cut off at
any byte: what is left of a command is no other command, and what is left of an answer no
other answer.  A call that returns an answer did what the answer says, and one that fails on
the way was served once or not at all.
-/

namespace RadicleArtifact.Client

open RadicleArtifact.Core
open RadicleArtifact.Library
open RadicleArtifact.Node

/-! ## Calls -/

section Read

variable (codec : WireCodec) {Payload : Type} (payload : WireForm Payload)

/-- What `call_inner` makes of the line it read. -/
def readResponse (line : Utf8.OsString) : Except ClientError Payload :=
  match Utf8.toStr line with
  | none => .error (.io (.other "stream did not contain valid UTF-8"))
  | some text =>
      if line.length = 0 then .error .eof
      else decodeResult codec payload text.toList

/-- `call`, with what waiting for the response comes to: the blocking client maps the errors
of its socket, the asynchronous one gives the whole call up. -/
def Transport.call (transport : Transport) (timeout : ℕ) (outcome : ReadLine) :
    Except ClientError Payload :=
  match transport with
  | .sync =>
      Except.mapError (Sync.mapTimeout timeout)
        (match outcome with
        | .read line => readResponse codec payload line
        | .failed err => .error (.io err)
        | .elapsed => .error (.io .wouldBlock))
  | .tokio =>
      match outcome with
      | .read line => readResponse codec payload line
      | .failed err => .error (.io err)
      | .elapsed => .error (.timeout timeout)

end Read

/-- Why a side gets no further. -/
inductive Stop where
  | failed (err : IoError)
  | elapsed

def Stop.outcome : Stop → ReadLine
  | .failed err => .failed err
  | .elapsed => .elapsed

/-- How far the bytes of a call get. -/
inductive Passage where
  /-- The socket cannot be connected to. -/
  | refused (err : IoError)
  /-- The command stops after some bytes, which the node reads. -/
  | cut (sent : ℕ) (stop : Stop)
  /-- The command is written.  The node may give the connection up before it reads the line,
  and of the answer no more than some bytes may come, before the stream ends or reading stops. -/
  | written (heard : Bool) (lost : Option (ℕ × Option Stop))

namespace Passage

/-- What the node reads of the line, unless it never does. -/
def heard (line : Utf8.OsString) : Passage → Option Utf8.OsString
  | .refused _ => none
  | .cut sent _ => some (line.take sent)
  | .written true _ => some line
  | .written false _ => none

/-- What the client's read comes to. -/
def outcome (answer : Utf8.OsString) : Passage → ReadLine
  | .refused err => .failed err
  | .cut _ stop => stop.outcome
  | .written _ none => .read (Utf8.readLine answer)
  | .written _ (some (received, stop)) =>
      let bytes := answer.take received
      if Utf8.newline ∈ bytes then .read (Utf8.readLine bytes)
      else
        match stop with
        | none => .read bytes
        | some stop => stop.outcome

end Passage

/-- A one-shot call, and what it meets. -/
structure OneShot where
  cmd : Command
  transport : Transport
  timeout : ℕ
  passage : Passage
  run : RequestRun

/-- The commands that `call` is made with; the others are streamed. -/
def oneShot : Command → Bool
  | .export _ _ => false
  | .fetch _ _ _ _ => false
  | .download _ _ _ _ _ => false
  | _ => true

/-- What a call returned. -/
structure Exchange where
  call : OneShot
  result : Except ClientError (replyTo call.cmd).Payload

section Calls

/-- What the node reads of a call's line, unless it never does. -/
def OneShot.heard (codec : WireCodec) (call : OneShot) : Option Utf8.OsString :=
  match encodeCommand codec call.cmd with
  | .error _ => none
  | .ok line => call.passage.heard (Utf8.encodeChars line)

/-- What a call returns, by what its handler answers. -/
def OneShot.returns (codec : WireCodec) (call : OneShot) (answer : Utf8.OsString) :
    Except ClientError (replyTo call.cmd).Payload :=
  let returned := call.transport.call codec ((replyTo call.cmd).form codec.toWireTexts)
    call.timeout (call.passage.outcome answer)
  match call.passage, encodeCommand codec call.cmd with
  | .refused _, _ => returned
  | _, .error err => .error err
  | _, .ok _ => returned

variable {blake3 : Blake3} (ctx : DispatchCtx blake3) (codec : WireCodec) (errors : RequestErrors)

/-- The handler of a call, run to its end: the node it leaves, and what it writes. -/
def serve (state : NodeState blake3) (call : OneShot) : NodeState blake3 × Utf8.OsString :=
  match call.heard codec with
  | none => (state, [])
  | some sent =>
      let (next, answer) := handleConnection ctx call.run state codec errors sent
      (next, Utf8.encodeChars (answer.getD []))

/-- A call and its handler, by themselves. -/
def exchange (state : NodeState blake3) (call : OneShot) : NodeState blake3 × Exchange :=
  let (next, answer) := serve ctx codec errors state call
  (next, ⟨call, call.returns codec answer⟩)

end Calls

/-! ## Lines cut off -/

section Truncated

variable {codec : WireCodec} {errors : RequestErrors}

/-- An error of the client's own, after which it does not know what the node did. -/
def ClientError.Local : ClientError → Prop
  | .remote _ => False
  | _ => True

theorem body_of_print {Value : Type} {form : WireForm Value} {value : Value} {text : List Char}
    (htext : form.print codec.floats value = .ok text) :
    Utf8.encodeChars (text ++ ['\n']) = Utf8.encodeChars text ++ [Utf8.newline] ∧
      Utf8.newline ∉ Utf8.encodeChars text := by
  constructor
  · rw [Utf8.encodeChars, List.flatMap_append]
    rfl
  · rw [Utf8.newline_mem_encodeChars]
    exact WireForm.newline_not_mem_of_print htext

/-- A command cut off anywhere is read as the command, or as an error. -/
theorem parseCommand_of_prefix {cmd : Command} {line : List Char}
    (hline : encodeCommand codec cmd = .ok line) {front : List Char} (hfront : front <+: line) :
    parseCommand codec errors (Utf8.trimEnd front) = .ok cmd ∨
      front ≠ line ∧ ∃ err, parseCommand codec errors (Utf8.trimEnd front) = .error err := by
  rw [encodeCommand] at hline
  split at hline
  · rename_i text htext
    obtain rfl := Except.ok.inj hline
    have hwhole := WireForm.trimEnd_of_print (objects_commandForm _) htext
    cases hparse : Json.parse codec.floats (Utf8.trimEnd front) with
    | none =>
        have herror : ∃ err, parseCommand codec errors (Utf8.trimEnd front) = .error err := by
          rw [parseCommand, hparse]
          exact ⟨_, rfl⟩
        refine .inr ⟨?_, herror⟩
        rintro rfl
        obtain ⟨err, herr⟩ := herror
        rw [hwhole, parseCommand_of_print htext] at herr
        contradiction
    | some json =>
        left
        rw [WireForm.trimEnd_eq_of_parse (objects_commandForm _) htext hfront hparse]
        exact parseCommand_of_print htext
  · contradiction

section Connection

variable {blake3 : Blake3} (ctx : DispatchCtx blake3) (run : RequestRun)
  (state : NodeState blake3)

/-- What the node does with a command it has read. -/
def handled (codec : WireCodec) (cmd : Command) : NodeState blake3 × Option (List Char) :=
  match dispatch ctx run state cmd with
  | none => (state, none)
  | some (next, result) =>
      (next, some (respond codec ((replyTo cmd).form codec.toWireTexts) result))

/-- Of a command that was cut off the node does nothing, or all when no more than the newline
is missing. -/
theorem handleConnection_of_prefix (errors : RequestErrors) {cmd : Command} {line : List Char}
    (hline : encodeCommand codec cmd = .ok line) {sent : Utf8.OsString}
    (hsent : sent <+: Utf8.encodeChars line) :
    handleConnection ctx run state codec errors sent = handled ctx run state codec cmd ∨
      sent ≠ Utf8.encodeChars line ∧
        ∃ answer, handleConnection ctx run state codec errors sent = (state, answer) := by
  have hbody : ∃ body, Utf8.encodeChars line = body ++ [Utf8.newline] ∧ Utf8.newline ∉ body := by
    rw [encodeCommand] at hline
    split at hline
    · rename_i text htext
      obtain rfl := Except.ok.inj hline
      exact ⟨_, body_of_print htext⟩
    · contradiction
  obtain ⟨body, hbytes, hnewline⟩ := hbody
  have hread := Utf8.readLine_of_prefix hnewline (hbytes ▸ hsent)
  rw [handleConnection, hread]
  split
  · rename_i hempty
    refine .inr ⟨?_, none, rfl⟩
    rw [hempty, hbytes]
    exact (List.append_ne_nil_of_right_ne_nil body (List.cons_ne_nil _ _)).symm
  · split
    · rename_i hinvalid
      refine .inr ⟨?_, none, rfl⟩
      rintro rfl
      rw [show Utf8.encodeChars line = Utf8.encode (String.ofList line) by
        rw [Utf8.encode, String.toList_ofList], Utf8.toStr_encode] at hinvalid
      contradiction
    · rename_i text htext
      have hencoded := Utf8.toStr_eq_some_iff.mp htext
      have hfront : text.toList <+: line := by
        apply Utf8.prefix_of_encodeChars_prefix
        rw [← Utf8.encode, ← hencoded]
        exact hsent
      have hparse : parseCommand codec errors (Utf8.trimEnd text.toList) = .ok cmd ∨ _ :=
        parseCommand_of_prefix hline hfront
      rcases hparse with hcmd | ⟨hcut, err, herr⟩
      · rw [hcmd]
        exact .inl rfl
      · rw [herr]
        refine .inr ⟨?_, _, rfl⟩
        intro hwhole
        have hsame : Utf8.encode text = Utf8.encode (String.ofList line) := by
          rw [← hencoded, hwhole, Utf8.encode, String.toList_ofList]
        apply hcut
        rw [Utf8.encode_injective hsame, String.toList_ofList]

end Connection

variable {Payload : Type} {payload : WireForm Payload}

/-- An answer cut off anywhere is read as the answer, or as an error of the client's own. -/
theorem readResponse_of_prefix {result : CommandResult Payload}
    (hbound : payload.bound < Json.maxDepth) (hvalid : PathsValid (result.paths payload.paths))
    {got : Utf8.OsString}
    (hgot : got <+: Utf8.encodeChars (writeLine (response codec payload result))) :
    readResponse codec payload got = resultOf result ∨
      ∃ err : ClientError, err.Local ∧ readResponse codec payload got = .error err := by
  have hdecoded : decodeResult codec payload (writeLine (response codec payload result)) =
      resultOf result := decodeResult_response hbound hvalid
  rw [← paths_commandResultForm] at hvalid
  obtain ⟨text, htext⟩ : ∃ text, (commandResultForm payload).print codec.floats result =
      .ok text := WireForm.exists_print hvalid
  have hline : response codec payload result = text := by
    rw [response_eq_encodeOr, encodeOr, htext]
  rw [hline, writeLine] at hdecoded hgot
  rw [readResponse]
  cases htoStr : Utf8.toStr got with
  | none => exact .inr ⟨.io _, trivial, rfl⟩
  | some found =>
      dsimp only
      split
      · exact .inr ⟨.eof, trivial, rfl⟩
      · have hfront : found.toList <+: text ++ ['\n'] := by
          apply Utf8.prefix_of_encodeChars_prefix
          rw [← Utf8.encode, ← Utf8.toStr_eq_some_iff.mp htoStr]
          exact hgot
        cases hparse : Json.parse codec.floats (Utf8.trimEnd found.toList) with
        | none =>
            right
            rw [decodeResult, WireForm.parse, hparse]
            exact ⟨.json _, trivial, rfl⟩
        | some json =>
            left
            have htrim := WireForm.trimEnd_eq_of_parse objects_commandResultForm htext hfront hparse
            have hwhole := WireForm.trimEnd_of_print objects_commandResultForm htext
            rw [← hdecoded, decodeResult, decodeResult, htrim, hwhole]

/-- Mapping its errors leaves an error of the client's own. -/
theorem local_mapTimeout (timeout : ℕ) (err : ClientError) (hlocal : err.Local) :
    (Sync.mapTimeout timeout err).Local := by
  unfold Sync.mapTimeout
  split
  · trivial
  · trivial
  · exact hlocal

theorem call_stop (codec : WireCodec) (payload : WireForm Payload) (transport : Transport)
    (timeout : ℕ) (stop : Stop) :
    ∃ err : ClientError, err.Local ∧
      transport.call codec payload timeout stop.outcome = .error err := by
  cases transport <;> cases stop
  · exact ⟨_, local_mapTimeout timeout (.io _) trivial, rfl⟩
  · exact ⟨_, local_mapTimeout timeout (.io .wouldBlock) trivial, rfl⟩
  · exact ⟨.io _, trivial, rfl⟩
  · exact ⟨.timeout timeout, trivial, rfl⟩

/-- Both transports return what they make of the line. -/
theorem call_read (transport : Transport) (timeout : ℕ) (got : Utf8.OsString) :
    (∀ result, readResponse codec payload got = resultOf result →
      transport.call codec payload timeout (.read got) = resultOf result) ∧
    ∀ err : ClientError, err.Local → readResponse codec payload got = .error err →
      ∃ err' : ClientError, err'.Local ∧
        transport.call codec payload timeout (.read got) = .error err' := by
  cases transport with
  | tokio => exact ⟨fun result hresult => hresult, fun err hlocal herr => ⟨err, hlocal, herr⟩⟩
  | sync =>
      constructor
      · intro result hresult
        rw [Transport.call, hresult]
        cases result <;> rfl
      · intro err hlocal herr
        rw [Transport.call, herr]
        exact ⟨_, local_mapTimeout timeout err hlocal, rfl⟩

/-- A call that gets no answer fails. -/
theorem call_unanswered (codec : WireCodec) (payload : WireForm Payload) (transport : Transport)
    (timeout : ℕ) (passage : Passage) :
    ∃ err : ClientError, err.Local ∧
      transport.call codec payload timeout (passage.outcome []) = .error err := by
  have heof : readResponse codec payload [] = .error .eof := rfl
  cases passage with
  | refused err => exact call_stop codec payload transport timeout (.failed err)
  | cut sent stop => exact call_stop codec payload transport timeout stop
  | written heard lost =>
      cases lost with
      | none => exact (call_read transport timeout []).2 .eof trivial heof
      | some lost =>
          obtain ⟨received, stop⟩ := lost
          have hnone : (Passage.written heard (some (received, stop))).outcome [] =
              match stop with
              | none => .read []
              | some stop => stop.outcome := by
            rw [Passage.outcome.eq_def]
            simp only [List.take_nil, if_neg List.not_mem_nil]
          rw [hnone]
          cases stop with
          | none => exact (call_read transport timeout []).2 .eof trivial heof
          | some stop => exact call_stop codec payload transport timeout stop

/-- The line of an answer. -/
theorem exists_body_of_response (codec : WireCodec) {result : CommandResult Payload}
    (hvalid : PathsValid (result.paths payload.paths)) :
    ∃ body, Utf8.encodeChars (writeLine (response codec payload result)) =
      body ++ [Utf8.newline] ∧ Utf8.newline ∉ body := by
  rw [← paths_commandResultForm] at hvalid
  obtain ⟨text, htext⟩ : ∃ text, (commandResultForm payload).print codec.floats result =
      .ok text := WireForm.exists_print hvalid
  rw [writeLine, response_eq_encodeOr, encodeOr, htext]
  exact ⟨_, body_of_print htext⟩

theorem readResponse_response {result : CommandResult Payload}
    (hbound : payload.bound < Json.maxDepth) (hvalid : PathsValid (result.paths payload.paths)) :
    readResponse codec payload (Utf8.encodeChars (writeLine (response codec payload result))) =
      resultOf result := by
  obtain ⟨body, hbody, -⟩ := exists_body_of_response codec hvalid
  have htoStr : Utf8.toStr (Utf8.encodeChars (writeLine (response codec payload result))) =
      some (String.ofList (writeLine (response codec payload result))) := by
    rw [Utf8.toStr_eq_some_iff, Utf8.encode, String.toList_ofList]
  rw [readResponse, htoStr]
  dsimp only
  rw [if_neg (by rw [hbody, List.length_append]; exact Nat.succ_ne_zero _), String.toList_ofList]
  exact decodeResult_response hbound hvalid

theorem readLine_of_response {result : CommandResult Payload}
    (hvalid : PathsValid (result.paths payload.paths)) {got : Utf8.OsString}
    (hgot : got <+: Utf8.encodeChars (writeLine (response codec payload result))) :
    Utf8.readLine got = got := by
  obtain ⟨body, hbody, hnewline⟩ := exists_body_of_response codec hvalid
  rw [hbody] at hgot
  exact Utf8.readLine_of_prefix hnewline hgot

/-- Whatever part of an answer comes, the call returns the answer or fails, and with all of it
the call returns the answer. -/
theorem call_answered {result : CommandResult Payload} (hbound : payload.bound < Json.maxDepth)
    (hvalid : PathsValid (result.paths payload.paths)) (transport : Transport) (timeout : ℕ)
    (heard : Bool) (lost : Option (ℕ × Option Stop)) {returned : Except ClientError Payload}
    (hreturned : transport.call codec payload timeout ((Passage.written heard lost).outcome
      (Utf8.encodeChars (writeLine (response codec payload result)))) = returned) :
    returned = resultOf result ∨
      lost ≠ none ∧ ∃ err : ClientError, err.Local ∧ returned = .error err := by
  subst hreturned
  cases lost with
  | none =>
      left
      rw [Passage.outcome, readLine_of_response hvalid (List.prefix_refl _)]
      exact (call_read transport timeout _).1 result (readResponse_response hbound hvalid)
  | some lost =>
      obtain ⟨received, stop⟩ := lost
      have hinitial := List.take_prefix received
        (Utf8.encodeChars (writeLine (response codec payload result)))
      have hline := readLine_of_response hvalid hinitial
      rcases readResponse_of_prefix hbound hvalid hinitial with hsame | ⟨err, hlocal, herr⟩
      · have hcall := (call_read transport timeout _).1 result hsame
        rw [Passage.outcome.eq_def]
        dsimp only
        split
        · exact .inl (by rw [hline]; exact hcall)
        · cases stop with
          | none => exact .inl hcall
          | some stop =>
              exact .inr ⟨Option.some_ne_none _, call_stop codec payload transport timeout stop⟩
      · have hcall := (call_read transport timeout _).2 err hlocal herr
        right
        refine ⟨Option.some_ne_none _, ?_⟩
        rw [Passage.outcome.eq_def]
        dsimp only
        split
        · rw [hline]
          exact hcall
        · cases stop with
          | none => exact hcall
          | some stop => exact call_stop codec payload transport timeout stop

end Truncated

/-! ## What calls come to -/

/-- Nothing comes between the client and the node, and the command can be written. -/
def OneShot.Undisturbed (call : OneShot) : Prop :=
  call.passage = .written true none ∧ PathsValid call.cmd.paths

/-- What a call did to the set of triples, by what it returned. -/
inductive Served (blake3 : Blake3) (seeded after : Seeded) (returned : Exchange) : Prop
  | answered (result : CommandResult (replyTo returned.call.cmd).Payload)
      (hserves : Serves blake3 returned.call.run seeded after returned.call.cmd result)
      (hreturned : returned.result = resultOf result)
  | unknown (result : CommandResult (replyTo returned.call.cmd).Payload)
      (hserves : Serves blake3 returned.call.run seeded after returned.call.cmd result)
      (err : ClientError) (hlocal : err.Local) (hreturned : returned.result = .error err)
      (hdisturbed : ¬ returned.call.Undisturbed)
  | unserved (err : ClientError) (hlocal : err.Local) (hreturned : returned.result = .error err)
      (hdisturbed : ¬ returned.call.Undisturbed) (hsame : after = seeded)

section Runs

variable {blake3 : Blake3} {ctx : DispatchCtx blake3} {codec : WireCodec}
  {errors : RequestErrors} {state : NodeState blake3} {seeded : Seeded}

/-- The answer to a one-shot command holds no path, so it can be written. -/
theorem pathsValid_of_oneShot {cmd : Command} (hcmd : oneShot cmd = true)
    (result : CommandResult (replyTo cmd).Payload) :
    PathsValid (result.paths ((replyTo cmd).form codec.toWireTexts).paths) := by
  rw [Reply.paths_form]
  intro path hpath
  cases cmd with
  | «export» cid dest => contradiction
  | fetch rid cid locations seed => contradiction
  | download rid cid locations dest seed => contradiction
  | _ => cases result <;> contradiction

theorem exists_dispatch {cmd : Command} (hcmd : oneShot cmd = true) (run : RequestRun) :
    ∃ next result, dispatch ctx run state cmd = some (next, result) := by
  cases cmd with
  | «export» cid dest => contradiction
  | fetch rid cid locations seed => contradiction
  | download rid cid locations dest seed => contradiction
  | _ => exact ⟨_, _, rfl⟩

/-- A command that is not written fails on a path in it. -/
theorem encodeCommand_eq_error {cmd : Command} {err : ClientError}
    (hline : encodeCommand codec cmd = .error err) : err.Local ∧ ¬ PathsValid cmd.paths := by
  constructor
  · rw [encodeCommand] at hline
    split at hline
    · contradiction
    · rw [← Except.error.inj hline]
      trivial
  · intro hvalid
    obtain ⟨text, -, hok⟩ : ∃ text,
        (commandForm codec.toWireTexts).print codec.floats cmd = .ok text ∧
          encodeCommand codec cmd = .ok (text ++ ['\n']) := exists_encodeCommand hvalid
    rw [hok] at hline
    contradiction

/-- A command the node has read is served once. -/
theorem exists_handled {cmd : Command} (hcmd : oneShot cmd = true) (run : RequestRun)
    (hrefines : Refines ctx.bytes state.tags seeded) :
    ∃ next result after, handled ctx run state codec cmd =
        (next, some (respond codec ((replyTo cmd).form codec.toWireTexts) result)) ∧
      Refines ctx.bytes next.tags after ∧ state.blobs.Extends next.blobs ∧
      Serves blake3 run seeded after cmd result := by
  obtain ⟨next, result, hdispatch⟩ : ∃ next result,
      dispatch ctx run state cmd = some (next, result) := exists_dispatch hcmd run
  obtain ⟨after, hafter, hextends, hserves⟩ := serves_dispatch hrefines hdispatch
  refine ⟨next, result, after, ?_, hafter, hextends, hserves⟩
  rw [handled, hdispatch]

section Passages

variable {call : OneShot} {after : Seeded}
  {result : CommandResult (replyTo call.cmd).Payload}

/-- Where the node answers nothing, the call fails on its way. -/
theorem served_unanswered (hpassage : call.passage ≠ .written true none) :
    Served blake3 seeded seeded ⟨call, call.transport.call codec
      ((replyTo call.cmd).form codec.toWireTexts) call.timeout (call.passage.outcome [])⟩ := by
  obtain ⟨err, hlocal, herr⟩ := call_unanswered codec
    ((replyTo call.cmd).form codec.toWireTexts) call.transport call.timeout call.passage
  exact .unserved err hlocal herr (fun hall => hpassage hall.1) rfl

/-- A client whose write was cut off does not learn what the node did. -/
theorem served_cut {sent : ℕ} {stop : Stop} (hpassage : call.passage = .cut sent stop)
    (hserves : Serves blake3 call.run seeded after call.cmd result) (answer : Utf8.OsString) :
    Served blake3 seeded after ⟨call, call.transport.call codec
      ((replyTo call.cmd).form codec.toWireTexts) call.timeout (call.passage.outcome answer)⟩ := by
  obtain ⟨err, hlocal, herr⟩ := call_stop codec
    ((replyTo call.cmd).form codec.toWireTexts) call.transport call.timeout stop
  refine .unknown result hserves err hlocal ?_ fun hall => ?_
  · rw [hpassage]
    exact herr
  · have hwritten := hpassage.symm.trans hall.1
    contradiction

/-- The answer to a command that was served is returned, unless it is lost. -/
theorem served_answered {lost : Option (ℕ × Option Stop)} (hcmd : oneShot call.cmd = true)
    (hpassage : call.passage = .written true lost)
    (hserves : Serves blake3 call.run seeded after call.cmd result) :
    Served blake3 seeded after ⟨call, call.transport.call codec
      ((replyTo call.cmd).form codec.toWireTexts) call.timeout (call.passage.outcome
        (Utf8.encodeChars
          (respond codec ((replyTo call.cmd).form codec.toWireTexts) result)))⟩ := by
  have hresponse : respond codec ((replyTo call.cmd).form codec.toWireTexts) result =
      writeLine (response codec ((replyTo call.cmd).form codec.toWireTexts) result) := by
    cases result <;> rfl
  rw [hpassage, hresponse]
  rcases call_answered (Reply.bound_form_lt _ _) (pathsValid_of_oneShot hcmd result)
    call.transport call.timeout true lost rfl with hdone | ⟨hlost, err, hlocal, herr⟩
  · exact .answered result hserves hdone
  · refine .unknown result hserves err hlocal herr fun hall => hlost ?_
    exact (Passage.written.inj (hpassage.symm.trans hall.1)).2

end Passages

/-- One call: it is served at most once, and it is served as it says when it returns. -/
theorem served_exchange {call : OneShot} (hcmd : oneShot call.cmd = true)
    (hrefines : Refines ctx.bytes state.tags seeded) {next : NodeState blake3}
    {returned : Exchange} (hexchange : exchange ctx codec errors state call = (next, returned)) :
    ∃ after, Refines ctx.bytes next.tags after ∧ state.blobs.Extends next.blobs ∧
      Served blake3 seeded after returned := by
  obtain ⟨cmd, transport, timeout, passage, run⟩ := call
  cases hline : encodeCommand codec cmd with
  | error err =>
      obtain ⟨hlocal, hinvalid⟩ := encodeCommand_eq_error hline
      simp only [exchange, serve, OneShot.heard, OneShot.returns, hline] at hexchange
      obtain ⟨rfl, rfl⟩ := Prod.mk.inj hexchange
      refine ⟨seeded, hrefines, .refl _, ?_⟩
      cases passage with
      | refused err => exact served_unanswered (by simp)
      | _ => exact .unserved err hlocal rfl (fun hall => hinvalid hall.2) rfl
  | ok line =>
      obtain ⟨served, result, after, hhandled, hafter, hextends, hserves⟩ :
        ∃ next result after, handled ctx run state codec cmd =
            (next, some (respond codec ((replyTo cmd).form codec.toWireTexts) result)) ∧ _ :=
        exists_handled hcmd run hrefines
      simp only [exchange, serve, OneShot.heard, OneShot.returns, hline] at hexchange
      cases passage with
      | refused err =>
          obtain ⟨rfl, rfl⟩ := Prod.mk.inj hexchange
          exact ⟨seeded, hrefines, .refl _, served_unanswered (by simp)⟩
      | cut sent stop =>
          simp only [Passage.heard] at hexchange
          have hsent := List.take_prefix sent (Utf8.encodeChars line)
          rcases handleConnection_of_prefix ctx run state errors hline hsent with
            hall | ⟨-, answer, hnone⟩
          · rw [hall, hhandled] at hexchange
            obtain ⟨rfl, rfl⟩ := Prod.mk.inj hexchange
            exact ⟨after, hafter, hextends, served_cut rfl hserves _⟩
          · rw [hnone] at hexchange
            obtain ⟨rfl, rfl⟩ := Prod.mk.inj hexchange
            exact ⟨seeded, hrefines, .refl _, served_unanswered (by simp)⟩
      | written heard lost =>
          cases heard with
          | false =>
              obtain ⟨rfl, rfl⟩ := Prod.mk.inj hexchange
              exact ⟨seeded, hrefines, .refl _, served_unanswered (by simp)⟩
          | true =>
              simp only [Passage.heard] at hexchange
              rcases handleConnection_of_prefix ctx run state errors hline
                (List.prefix_refl _) with hall | ⟨hcut, -⟩
              · rw [hall, hhandled] at hexchange
                obtain ⟨rfl, rfl⟩ := Prod.mk.inj hexchange
                exact ⟨after, hafter, hextends, served_answered hcmd rfl hserves⟩
              · exact absurd rfl hcut

end Runs

end RadicleArtifact.Client
