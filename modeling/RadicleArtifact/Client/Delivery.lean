import RadicleArtifact.Client.Session

/-!
# Delivery of streamed responses

The bytes on the way, with what the client has read, are always the beginning of the
one response of the operation: its progress frames in order, then its result.  So a
patient client reads just that, and since every step brings the call nearer to its end,
every run ends with the result returned.
-/

namespace RadicleArtifact.Client

open RadicleArtifact.Core
open RadicleArtifact.Library
open RadicleArtifact.Node

namespace Session

variable {Payload : Type} {call : Call Payload} {frames : List FetchProgress}
  {session next : Session Payload}

/-! ## What the handler has written and the client has read -/

/-- The lines of progress frames. -/
def lines (call : Call Payload) (frames : List FetchProgress) : Utf8.OsString :=
  frames.flatMap fun progress => bytesOf call (.progress progress)

theorem bytesOf_ne (call : Call Payload) (event : StreamEvent Payload) :
    bytesOf call event ≠ [] := by
  rw [bytesOf, frameBytes, writeFrame, Utf8.encodeChars, List.flatMap_append]
  exact List.append_ne_nil_of_right_ne_nil _ (Utf8.encodeChars_cons_ne_nil _ _)

/-- The whole response: the progress frames in order, then the terminal frame. -/
def stream (call : Call Payload) (frames : List FetchProgress) : Utf8.OsString :=
  lines call frames ++ bytesOf call (terminal call)

@[simp]
theorem lines_append (call : Call Payload) (frames later : List FetchProgress) :
    lines call (frames ++ later) = lines call frames ++ lines call later :=
  List.flatMap_append

@[simp]
theorem lines_singleton (call : Call Payload) (progress : FetchProgress) :
    lines call [progress] = bytesOf call (.progress progress) := by
  rw [lines, List.flatMap_singleton]

/-- The lines the handler has begun to write. -/
def begun (call : Call Payload) (taken : List FetchProgress) (handler : Handler) :
    Utf8.OsString :=
  lines call taken ++ if handler.ending then bytesOf call (terminal call) else []

/-- What the client has made of the stream. -/
def Delivered (call : Call Payload) (frames : List FetchProgress) (session : Session Payload) :
    Prop :=
  match session.reader with
  | .reading line =>
      Utf8.newline ∉ line ∧ session.seen <+: frames ∧
        session.sent = lines call session.seen ++ line ++ session.buffer ++ session.wire
  | .returned result =>
      Turn.ofEvent (terminal call) = .done result ∧ session.seen = frames ∧
        session.sent = stream call frames ∧ session.handler = .returned

/-- What holds in every state of a patient call. -/
structure Sound (call : Call Payload) (frames : List FetchProgress)
    (session : Session Payload) : Prop where
  inbound_eq : session.inbound = []
  pending_eq : session.finished = true → session.pending = []
  finished_eq : session.handler.finishing = true → session.finished = true
  channel_eq : session.handler.ending = true → session.channel = []
  rest_ne : ∀ rest after, session.handler = .writing rest after → rest ≠ []
  written : ∃ taken, frames = taken ++ session.channel ++ session.pending ∧
    session.sent ++ session.handler.unsent = begun call taken session.handler
  delivered : session.Delivered call frames

theorem sound_start (call : Call Payload) (frames : List FetchProgress) :
    (start frames [] : Session Payload).Sound call frames where
  inbound_eq := rfl
  pending_eq := by simp [start]
  finished_eq := by simp [start, Handler.finishing]
  channel_eq := by simp [start]
  rest_ne := by simp [start]
  written := ⟨[], rfl, rfl⟩
  delivered := ⟨List.not_mem_nil, List.nil_prefix, rfl⟩

/-- The handler returns last. -/
theorem Delivered.exists_reading (hdelivered : session.Delivered call frames)
    (hhandler : session.handler ≠ .returned) : ∃ line, session.reader = .reading line := by
  rw [Delivered] at hdelivered
  split at hdelivered
  · rename_i line hreader
    exact ⟨line, hreader⟩
  · exact absurd hdelivered.2.2.2 hhandler

theorem Delivered.hungUp_eq (hdelivered : session.Delivered call frames)
    (hhandler : session.handler ≠ .returned) : session.hungUp = false := by
  obtain ⟨line, hreader⟩ := hdelivered.exists_reading hhandler
  rw [hungUp, hreader]

theorem Delivered.seen_prefix (hdelivered : session.Delivered call frames) :
    session.seen <+: frames := by
  rw [Delivered] at hdelivered
  split at hdelivered
  · exact hdelivered.2.1
  · exact hdelivered.2.1 ▸ List.prefix_rfl

theorem Delivered.setHandler (hdelivered : session.Delivered call frames)
    (hhandler : session.handler ≠ .returned) (channel : List FetchProgress)
    (handler : Handler) :
    { session with channel := channel, handler := handler }.Delivered call frames := by
  obtain ⟨line, hreader⟩ := hdelivered.exists_reading hhandler
  rw [Delivered, hreader] at hdelivered ⊢
  exact hdelivered

theorem Delivered.append (hdelivered : session.Delivered call frames)
    (hhandler : session.handler ≠ .returned) (part : Utf8.OsString) (handler : Handler) :
    { session with
      sent := session.sent ++ part
      wire := session.wire ++ part
      handler := handler }.Delivered call frames := by
  obtain ⟨line, hreader⟩ := hdelivered.exists_reading hhandler
  simp only [Delivered, hreader] at hdelivered ⊢
  obtain ⟨hline, hseen, hsent⟩ := hdelivered
  exact ⟨hline, hseen, by rw [hsent, List.append_assoc _ session.wire]⟩

theorem Sound.pending_of_ending (hsound : session.Sound call frames)
    (hending : session.handler.ending = true) : session.pending = [] :=
  hsound.pending_eq (hsound.finished_eq (Handler.finishing_of_ending hending))

theorem Sound.begun_of_ending (hsound : session.Sound call frames)
    (hending : session.handler.ending = true) {taken : List FetchProgress}
    (hframes : frames = taken ++ session.channel ++ session.pending) :
    begun call taken session.handler = stream call frames := by
  rw [hsound.channel_eq hending, hsound.pending_of_ending hending, List.append_nil,
    List.append_nil] at hframes
  rw [begun, if_pos hending, hframes, stream]

/-- What was written is the beginning of the response. -/
theorem Sound.sent_prefix (hsound : session.Sound call frames) :
    session.sent <+: stream call frames := by
  obtain ⟨taken, hframes, hwritten⟩ := hsound.written
  have hsent : session.sent <+: begun call taken session.handler := ⟨_, hwritten⟩
  refine hsent.trans ?_
  by_cases hending : session.handler.ending = true
  · rw [hsound.begun_of_ending hending hframes]
  · rw [begun, if_neg hending, List.append_nil, stream, hframes, lines_append, lines_append,
      List.append_assoc, List.append_assoc]
    exact List.prefix_append _ _

/-- Once the whole response is written, the handler has returned. -/
theorem Sound.returned_of_sent (hsound : session.Sound call frames)
    (hsent : session.sent = stream call frames) :
    session.handler = .returned := by
  obtain ⟨taken, hframes, hwritten⟩ := hsound.written
  by_cases hending : session.handler.ending = true
  · rw [hsound.begun_of_ending hending hframes, hsent, List.append_right_eq_self] at hwritten
    cases hhandler : session.handler with
    | writing rest after =>
        rw [hhandler] at hwritten
        exact absurd hwritten (hsound.rest_ne rest after hhandler)
    | returned => rfl
    | selecting => simp [hhandler, Handler.ending] at hending
    | flushing => simp [hhandler, Handler.ending] at hending
  · rw [begun, if_neg hending, List.append_nil, hsent, stream, hframes, lines_append,
      lines_append] at hwritten
    have hlength := congrArg List.length hwritten
    have hpos := List.length_pos_of_ne_nil (bytesOf_ne call (terminal call))
    simp only [List.length_append] at hlength
    omega

end Session

/-- The response of the call can be written and read. -/
structure Call.Writable {Payload : Type} (call : Call Payload) : Prop where
  bound_lt : call.payload.bound < Json.maxDepth
  valid : PathsValid ((Session.terminal call).paths call.payload.paths)

namespace Session

variable {Payload : Type} {call : Call Payload} {frames : List FetchProgress}
  {session next : Session Payload}

/-- The line a client has put together is the first of the frames it has not read, and
its turn is the one for that frame. -/
theorem turn_of_prefix (hbound : call.payload.bound < Json.maxDepth)
    {event : StreamEvent Payload} (hvalid : PathsValid (event.paths call.payload.paths))
    {line buffer taken rest later : Utf8.OsString} (hline : Utf8.newline ∉ line)
    (htake : Utf8.takeLine buffer = some (taken, rest))
    (hinitial : line ++ buffer <+: bytesOf call event ++ later) :
    line ++ taken = bytesOf call event ∧
      call.transport.callStreaming call.codec call.payload call.idle (.read (line ++ taken)) =
        .ofEvent event := by
  obtain ⟨body, hbody, hnone⟩ := frameBytes_eq_line call.codec hvalid
  have hbytes : bytesOf call event = body ++ [Utf8.newline] := hbody
  rw [hbytes, List.append_assoc] at hinitial
  have hframe : line ++ taken = bytesOf call event :=
    (Utf8.line_of_prefix hline hnone hinitial htake).trans hbytes.symm
  refine ⟨hframe, ?_⟩
  rw [hframe, bytesOf]
  exact callStreaming_frameBytes hbound hvalid call.transport

theorem sound_consumeLine (hcall : call.Writable) (hsound : session.Sound call frames)
    {line taken rest : Utf8.OsString} (hreader : session.reader = .reading line)
    (htake : Utf8.takeLine session.buffer = some (taken, rest)) :
    (session.turn call (.read (line ++ taken)) rest).Sound call frames := by
  obtain ⟨-, -, -, hbuffer⟩ := Utf8.eq_append_of_takeLine htake
  have hdelivered := hsound.delivered
  rw [Delivered, hreader] at hdelivered
  obtain ⟨hline, ⟨later, hlater⟩, hsent⟩ := hdelivered
  have hinitial := hsound.sent_prefix
  rw [hsent, stream, ← hlater, lines_append, List.append_assoc, List.append_assoc,
    List.append_assoc, List.prefix_append_right_inj, ← List.append_assoc] at hinitial
  have hread := (List.prefix_append (line ++ session.buffer) session.wire).trans hinitial
  cases later with
  | cons progress later =>
      rw [← List.singleton_append, lines_append, lines_singleton, List.append_assoc] at hread
      have hvalid : PathsValid ((.progress progress : StreamEvent Payload).paths
          call.payload.paths) := List.forall_mem_nil _
      obtain ⟨hframe, hturn⟩ := turn_of_prefix hcall.bound_lt hvalid hline htake hread
      simp only [turn, hturn, Turn.ofEvent]
      refine { hsound with delivered := ⟨List.not_mem_nil, ?_, ?_⟩ }
      · exact ⟨later, by rw [← hlater, List.append_assoc, List.singleton_append]⟩
      · rw [hsent, hbuffer, lines_append, lines_singleton, ← hframe]
        simp
  | nil =>
      rw [List.append_nil] at hlater
      have hterminal : line ++ session.buffer <+: bytesOf call (terminal call) ++ [] := by
        simpa [lines] using hread
      obtain ⟨hframe, hturn⟩ := turn_of_prefix hcall.bound_lt hcall.valid hline htake hterminal
      have hwhole : session.sent = stream call frames := by
        have hback : stream call frames <+: session.sent := by
          rw [hsent, hbuffer, stream, ← hlater, ← hframe]
          exact ⟨rest ++ session.wire, by simp⟩
        exact hsound.sent_prefix.eq_of_length_le hback.length_le
      have hreturned := hsound.returned_of_sent hwhole
      obtain ⟨result, hresult⟩ : ∃ result, Turn.ofEvent (terminal call) = .done result := by
        rw [terminal]
        cases call.result with
        | ok value => exact ⟨.ok value, rfl⟩
        | error err => exact ⟨.error (.remote err), rfl⟩
      simp only [turn, hturn, hresult]
      exact { hsound with delivered := ⟨hresult, hlater, hwhole, hreturned⟩ }

/-- The stream does not end before the client has read its last line. -/
theorem not_eof (hcall : call.Writable) (hsound : session.Sound call frames)
    {line : Utf8.OsString} (hreader : session.reader = .reading line)
    (hhandler : session.handler = .returned) (hwire : session.wire = [])
    (hbuffer : session.buffer = []) : False := by
  have hdelivered := hsound.delivered
  rw [Delivered, hreader, hwire, hbuffer] at hdelivered
  obtain ⟨hline, ⟨later, hlater⟩, hsent⟩ := hdelivered
  obtain ⟨taken, hframes, hwritten⟩ := hsound.written
  have hending : session.handler.ending = true := by
    rw [hhandler]
    rfl
  obtain ⟨body, hbody, -⟩ := frameBytes_eq_line call.codec hcall.valid
  rw [hsound.begun_of_ending hending hframes, hhandler, hsent, stream, ← hlater, lines_append,
    bytesOf, hbody] at hwritten
  refine hline ?_
  have htail : line = lines call later ++ (body ++ [Utf8.newline]) := by
    simpa [List.append_assoc] using hwritten
  rw [htail]
  simp

/-- Every step of a patient call keeps its invariant. -/
theorem Sound.moves (hcall : call.Writable) (hsound : session.Sound call frames)
    (hmoves : Moves call session next) : next.Sound call frames := by
  obtain ⟨taken, hframes, hwritten⟩ := hsound.written
  cases hmoves with
  | @emit progress later hpending hhandler =>
      have hrunning : session.pending ≠ [] := by simp [hpending]
      exact { hsound with
        pending_eq := fun hfinished => absurd (hsound.pending_eq hfinished) hrunning
        channel_eq := fun hending => absurd (hsound.pending_of_ending hending) hrunning
        written := ⟨taken, by rw [hframes, hpending]; simp, hwritten⟩ }
  | finish hpending hfinished =>
      exact { hsound with
        pending_eq := fun _ => hpending
        finished_eq := fun _ => rfl }
  | selectFinished hhandler hfinished =>
      have hrunning : session.handler ≠ .returned := by simp [hhandler]
      rw [begun, hhandler] at hwritten
      exact { hsound with
        finished_eq := fun _ => hfinished
        channel_eq := by simp
        rest_ne := by simp
        written := ⟨taken, hframes, by simpa [begun] using hwritten⟩
        delivered := hsound.delivered.setHandler hrunning session.channel .flushing }
  | @selectProgress progress later hhandler hchannel =>
      have hrunning : session.handler ≠ .returned := by simp [hhandler]
      rw [begun, hhandler] at hwritten
      exact { hsound with
        finished_eq := by simp
        channel_eq := by simp
        rest_ne := fun _ _ hwriting => (Handler.writing.inj hwriting).1 ▸ bytesOf_ne call _
        written := ⟨taken ++ [progress], by rw [hframes, hchannel]; simp,
          by simpa [begun] using hwritten⟩
        delivered := hsound.delivered.setHandler hrunning later _ }
  | probe hhandler hclient =>
      have hrunning : session.handler ≠ .returned := by simp [hhandler]
      rw [hsound.inbound_eq, hsound.delivered.hungUp_eq hrunning] at hclient
      simp at hclient
  | @flushProgress progress later hhandler hchannel =>
      have hrunning : session.handler ≠ .returned := by simp [hhandler]
      rw [begun, hhandler] at hwritten
      exact { hsound with
        finished_eq := fun _ => hsound.finished_eq (by simp [hhandler])
        channel_eq := by simp
        rest_ne := fun _ _ hwriting => (Handler.writing.inj hwriting).1 ▸ bytesOf_ne call _
        written := ⟨taken ++ [progress], by rw [hframes, hchannel]; simp,
          by simpa [begun] using hwritten⟩
        delivered := hsound.delivered.setHandler hrunning later _ }
  | flushTerminal hhandler hchannel =>
      have hrunning : session.handler ≠ .returned := by simp [hhandler]
      rw [begun, hhandler] at hwritten
      exact { hsound with
        finished_eq := fun _ => hsound.finished_eq (by simp [hhandler])
        channel_eq := fun _ => hchannel
        rest_ne := fun _ _ hwriting => (Handler.writing.inj hwriting).1 ▸ bytesOf_ne call _
        written := ⟨taken, hframes, by simpa [begun] using hwritten⟩
        delivered := hsound.delivered.setHandler hrunning session.channel _ }
  | writeFailed hhandler hclient =>
      have hrunning : session.handler ≠ .returned := by simp [hhandler]
      rw [hsound.delivered.hungUp_eq hrunning] at hclient
      contradiction
  | @writeAll rest after hhandler hrest =>
      have hrunning : session.handler ≠ .returned := by simp [hhandler]
      rw [begun, hhandler] at hwritten
      have hfinished := hsound.finished_eq
      have hchannel := hsound.channel_eq
      rw [hhandler] at hfinished hchannel
      exact { hsound with
        finished_eq := by cases after <;> simp_all [After.handler]
        channel_eq := by cases after <;> simp_all [After.handler]
        rest_ne := by cases after <;> simp [After.handler]
        written :=
          ⟨taken, hframes, by cases after <;> simpa [begun, After.handler] using hwritten⟩
        delivered := hsound.delivered.append hrunning rest _ }
  | @writePart part rest after hhandler hpart hrest =>
      have hrunning : session.handler ≠ .returned := by simp [hhandler]
      rw [begun, hhandler] at hwritten
      have hfinished := hsound.finished_eq
      have hchannel := hsound.channel_eq
      rw [hhandler] at hfinished hchannel
      exact { hsound with
        finished_eq := hfinished
        channel_eq := hchannel
        rest_ne := fun _ _ hwriting => (Handler.writing.inj hwriting).1 ▸ hrest
        written := ⟨taken, hframes, by simpa [begun] using hwritten⟩
        delivered := hsound.delivered.append hrunning part _ }
  | @fill line part rest hreader hbuffer hwire hpart =>
      have hdelivered := hsound.delivered
      rw [Delivered, hreader] at hdelivered
      obtain ⟨hline, hseen, hsent⟩ := hdelivered
      refine { hsound with delivered := ?_ }
      simp only [Delivered, hreader]
      exact ⟨hline, hseen, by rw [hsent, hbuffer, hwire]; simp⟩
  | consumeLine hreader htake => exact sound_consumeLine hcall hsound hreader htake
  | @consumePart line hreader hbuffer htake =>
      have hdelivered := hsound.delivered
      rw [Delivered, hreader] at hdelivered
      obtain ⟨hline, hseen, hsent⟩ := hdelivered
      have hnone : Utf8.newline ∉ line ++ session.buffer := by
        rw [List.mem_append]
        exact not_or.mpr ⟨hline, Utf8.takeLine_eq_none_iff.mp htake⟩
      exact { hsound with delivered := ⟨hnone, hseen, by rw [hsent]; simp⟩ }
  | eof hreader hhandler hwire hbuffer =>
      exact (not_eof hcall hsound hreader hhandler hwire hbuffer).elim

/-! ## Progress -/

/-- While the client reads, one of the parties can go on. -/
theorem exists_step (hsound : session.Sound call frames) {line : Utf8.OsString}
    (hreader : session.reader = .reading line) :
    ∃ event, event.patient = true ∧ (session.step call event).isSome = true := by
  have hclient : session.hungUp = false := by rw [hungUp, hreader]
  by_cases hbuffer : session.buffer = []
  · by_cases hwire : session.wire = []
    · cases hhandler : session.handler with
      | selecting =>
          cases hfinished : session.finished with
          | true => exact ⟨.select, rfl, by simp [step, select, hhandler, hfinished]⟩
          | false =>
              cases hchannel : session.channel with
              | cons progress later =>
                  exact ⟨.select, rfl, by simp [step, select, hhandler, hfinished, hchannel]⟩
              | nil =>
                  cases hpending : session.pending with
                  | cons progress later =>
                      exact ⟨.emit, rfl, by simp [step, emit, hhandler, hpending]⟩
                  | nil =>
                      exact ⟨.finish, rfl, by simp [step, finish, hhandler, hfinished, hpending]⟩
      | flushing =>
          refine ⟨.flush, rfl, ?_⟩
          cases hchannel : session.channel <;> simp [step, flush, hhandler, hchannel]
      | writing rest after =>
          have hpos := List.length_pos_of_ne_nil (hsound.rest_ne rest after hhandler)
          refine ⟨.write rest.length, rfl, ?_⟩
          simp [step, write, hhandler, hclient, hpos.ne']
      | returned => exact ⟨.eof, rfl, by simp [step, eof, hreader, hhandler, hwire, hbuffer]⟩
    · have hpos := List.length_pos_of_ne_nil hwire
      refine ⟨.fill session.wire.length, rfl, ?_⟩
      simp [step, fill, hreader, hbuffer, hpos.ne']
  · refine ⟨.consume, rfl, ?_⟩
    cases htake : Utf8.takeLine session.buffer <;> simp [step, consume, hreader, hbuffer, htake]

/-- What is left to do for frames that no line was begun for. -/
def backlog (call : Call Payload) (steps : ℕ) (frames : List FetchProgress) : ℕ :=
  (frames.map fun progress => 3 * (bytesOf call (.progress progress)).length + steps).sum

/-- How far the handler is from its end. -/
def Handler.remaining (call : Call Payload) : Handler → ℕ
  | .selecting => 3 * (bytesOf call (terminal call)).length + 2
  | .writing rest .select => 3 * rest.length + 3 * (bytesOf call (terminal call)).length + 2
  | .flushing => 3 * (bytesOf call (terminal call)).length + 1
  | .writing rest .flush => 3 * rest.length + 3 * (bytesOf call (terminal call)).length + 1
  | .writing rest .done => 3 * rest.length
  | .returned => 0

def Reader.remaining : Reader Payload → ℕ
  | .reading _ => 1
  | .returned _ => 0

/-- How far a call is from its end.  A byte counts less the nearer it is to the client. -/
def remaining (call : Call Payload) (session : Session Payload) : ℕ :=
  backlog call 2 session.pending + backlog call 1 session.channel +
    (if session.finished then 0 else 1) + Handler.remaining call session.handler +
    2 * session.wire.length + session.buffer.length + Reader.remaining session.reader

theorem remaining_turn_le (outcome : ReadLine) (rest : Utf8.OsString) {line : Utf8.OsString}
    (hreader : session.reader = .reading line) :
    remaining call (session.turn call outcome rest) + session.buffer.length ≤
      remaining call session + rest.length := by
  rw [turn]
  split <;> simp only [remaining, hreader, Reader.remaining] <;> omega

/-- Every step brings a call nearer to its end. -/
theorem Sound.remaining_lt (hcall : call.Writable) (hsound : session.Sound call frames)
    (hmoves : Moves call session next) : remaining call next < remaining call session := by
  cases hmoves with
  | emit hpending hhandler =>
      simp only [remaining, hpending, backlog, List.map_cons, List.sum_cons, List.map_append,
        List.map_nil, List.sum_append, List.sum_nil]
      omega
  | finish hpending hfinished =>
      simp only [remaining, hfinished, if_true, Bool.false_eq_true, if_false]
      omega
  | selectFinished hhandler hfinished =>
      simp only [remaining, hhandler, Handler.remaining]
      omega
  | selectProgress hhandler hchannel =>
      simp only [remaining, hhandler, hchannel, Handler.remaining, backlog, List.map_cons,
        List.sum_cons]
      omega
  | probe hhandler hclient =>
      simp only [remaining, hhandler, Handler.remaining]
      omega
  | flushProgress hhandler hchannel =>
      simp only [remaining, hhandler, hchannel, Handler.remaining, backlog, List.map_cons,
        List.sum_cons]
      omega
  | flushTerminal hhandler hchannel =>
      simp only [remaining, hhandler, Handler.remaining]
      omega
  | writeFailed hhandler hclient =>
      rw [hsound.delivered.hungUp_eq (by simp [hhandler])] at hclient
      contradiction
  | @writeAll rest after hhandler hrest =>
      have hpos := List.length_pos_of_ne_nil hrest
      cases after <;>
        simp only [remaining, hhandler, After.handler, Handler.remaining, List.length_append] <;>
        omega
  | @writePart part rest after hhandler hpart hrest =>
      have hpos := List.length_pos_of_ne_nil hpart
      cases after <;> simp only [remaining, hhandler, Handler.remaining, List.length_append] <;>
        omega
  | fill hreader hbuffer hwire hpart =>
      have hpos := List.length_pos_of_ne_nil hpart
      simp only [remaining, hbuffer, hwire, List.length_append, List.length_nil]
      omega
  | consumeLine hreader htake =>
      obtain ⟨body, rfl, -, hbuffer⟩ := Utf8.eq_append_of_takeLine htake
      refine Nat.lt_of_add_lt_add_right ((remaining_turn_le _ _ hreader).trans_lt ?_)
      simp only [hbuffer, List.length_append, List.length_singleton]
      omega
  | consumePart hreader hbuffer htake =>
      have hpos := List.length_pos_of_ne_nil hbuffer
      simp only [remaining, hreader, Reader.remaining, List.length_nil]
      omega
  | eof hreader hhandler hwire hbuffer =>
      exact (not_eof hcall hsound hreader hhandler hwire hbuffer).elim

/-- No party of a call can go on behind the end. -/
theorem step_eq_none {result : Except ClientError Payload}
    (hreader : session.reader = .returned result) (hhandler : session.handler = .returned)
    {event : Step} (hpatient : event.patient = true) : session.step call event = none := by
  cases event with
  | emit => cases hpending : session.pending <;> simp [step, emit, hpending, hhandler]
  | finish => simp [step, finish, hhandler]
  | select => simp [step, select, hhandler]
  | flush => simp [step, flush, hhandler]
  | write count => simp [step, write, hhandler]
  | fill count => simp [step, fill, hreader]
  | consume => simp [step, consume, hreader]
  | eof => simp [step, eof, hreader]
  | elapse => contradiction
  | interject bytes => contradiction

theorem sound_of_reachable (hcall : call.Writable)
    (hreachable : Reachable (fun session => session.step call)
      (fun _ event => event.patient = true) (start frames []) session) :
    session.Sound call frames := by
  refine hreachable.invariant (sound_start call frames) ?_
  intro state event next hsound hpatient hnext
  exact hsound.moves hcall (moves_of_step hpatient hnext)

/-- A call that has returned has read every frame and the result of the operation. -/
theorem Sound.of_returned (hsound : session.Sound call frames)
    {result : Except ClientError Payload} (hreader : session.reader = .returned result) :
    result = call.result.mapError .remote ∧ session.seen = frames ∧
      session.sent = stream call frames ∧ session.handler = .returned := by
  have hdelivered := hsound.delivered
  rw [Delivered, hreader] at hdelivered
  obtain ⟨hresult, hdelivered⟩ := hdelivered
  refine ⟨?_, hdelivered⟩
  rw [terminal] at hresult
  cases hoperation : call.result with
  | error err =>
      rw [hoperation] at hresult
      exact (Turn.done.inj hresult).symm
  | ok done =>
      rw [hoperation] at hresult
      exact (Turn.done.inj hresult).symm

end Session

/-! ## Requests -/

/-- A streaming command. -/
inductive StreamRequest where
  | export (cid : Cid) (dest : PathBuf)
  | fetch (rid : RepoId) (cid : Cid) (locations : List FetchLocation) (seed : Option Oid)
  | download (rid : RepoId) (cid : Cid) (locations : List FetchLocation) (dest : PathBuf)
      (seed : Option Oid)

/-- What an operation reports of itself. -/
structure Done where
  bytes : UInt64
  fromCache : Bool
  seeded : Bool
  endpointId : EndpointId

namespace StreamRequest

def command : StreamRequest → Command
  | .export cid dest => .export cid dest
  | .fetch rid cid locations seed => .fetch rid cid locations seed
  | .download rid cid locations dest seed => .download rid cid locations dest seed

def reply : StreamRequest → Reply
  | .export _ _ => .export
  | .fetch _ _ _ _ => .fetch
  | .download _ _ _ _ _ => .download

/-- The receipt, which repeats what the request named. -/
def receipt : (request : StreamRequest) → Done → request.reply.Payload
  | .export cid dest, done => (⟨cid, dest, done.bytes⟩ : ExportReceipt)
  | .fetch rid cid _ _, done =>
      (⟨rid, cid, done.bytes, done.fromCache, done.seeded, done.endpointId⟩ : FetchReceipt)
  | .download rid cid _ dest _, done =>
      (⟨rid, cid, dest, done.bytes, done.fromCache, done.seeded, done.endpointId⟩ :
        DownloadReceipt)

/-- The call of a request whose operation has the given outcome. -/
def call (request : StreamRequest) (codec : WireCodec) (transport : Transport) (idle : ℕ)
    (outcome : Except CommandError Done) : Call request.reply.Payload where
  codec := codec
  payload := request.reply.form codec.toWireTexts
  transport := transport
  idle := idle
  result := outcome.map request.receipt

/-- What the node's operations emit and end with. -/
def respond (ctx : NodeCtx) (run : StreamRun) (store : Store) :
    (request : StreamRequest) → List FetchProgress × Except CommandError request.reply.Payload
  | .export cid dest =>
      let outcome := streamExport ctx run store cid dest
      (outcome.frames, outcome.event)
  | .fetch rid cid locations seed =>
      let outcome := streamFetch ctx run store rid cid locations seed
      (outcome.frames, outcome.event)
  | .download rid cid locations dest seed =>
      let outcome := streamDownload ctx run store rid cid locations dest seed
      (outcome.frames, outcome.event)

/-- The operations of the node give receipts of their own request. -/
theorem exists_outcome (ctx : NodeCtx) (run : StreamRun) (store : Store)
    (request : StreamRequest) :
    ∃ outcome : Except CommandError Done,
      (request.respond ctx run store).2 = outcome.map request.receipt := by
  cases request with
  | «export» cid dest =>
      simp only [respond, streamExport]
      repeat' split
      all_goals first
        | exact ⟨.error _, rfl⟩
        | exact ⟨.ok ⟨_, false, false, ctx.endpointId⟩, rfl⟩
  | fetch rid cid locations seed =>
      simp only [respond, streamFetch]
      repeat' split
      all_goals first
        | exact ⟨.error _, rfl⟩
        | exact ⟨.ok ⟨_, _, _, _⟩, rfl⟩
  | download rid cid locations dest seed =>
      simp only [respond, streamDownload]
      repeat' split
      all_goals first
        | exact ⟨.error _, rfl⟩
        | exact ⟨.ok ⟨_, _, _, _⟩, rfl⟩

/-- A command that was sent names only UTF-8 paths. -/
theorem paths_valid {request : StreamRequest} {codec : WireCodec} {line : List Char}
    (hline : encodeCommand codec request.command = .ok line) :
    PathsValid request.command.paths := by
  rw [encodeCommand] at hline
  split at hline
  · rename_i text htext
    obtain ⟨json, hjson, -⟩ := map_eq_ok_iff.mp htext
    obtain ⟨members, hmembers, -⟩ := map_eq_ok_iff.mp hjson
    cases request with
    | «export» cid dest =>
        obtain ⟨-, after, hafter⟩ := RecordForm.exists_of_cons_write hmembers
        obtain ⟨⟨written, hwritten⟩, -⟩ := RecordForm.exists_of_cons_write hafter
        obtain ⟨path, hpath, -⟩ := map_eq_ok_iff.mp hwritten
        exact List.forall_mem_singleton.mpr (WireForm.toStr_of_path_write hpath)
    | fetch rid cid locations seed => exact List.forall_mem_nil _
    | download rid cid locations dest seed =>
        obtain ⟨-, after, hafter⟩ := RecordForm.exists_of_cons_write hmembers
        obtain ⟨-, after, hafter⟩ := RecordForm.exists_of_cons_write hafter
        obtain ⟨-, after, hafter⟩ := RecordForm.exists_of_cons_write hafter
        obtain ⟨⟨written, hwritten⟩, -⟩ := RecordForm.exists_of_cons_write hafter
        obtain ⟨path, hpath, -⟩ := map_eq_ok_iff.mp hwritten
        exact List.forall_mem_singleton.mpr (WireForm.toStr_of_path_write hpath)
  · contradiction

theorem writable {request : StreamRequest} {codec : WireCodec} {line : List Char}
    (hline : encodeCommand codec request.command = .ok line) (transport : Transport) (idle : ℕ)
    (outcome : Except CommandError Done) :
    (request.call codec transport idle outcome).Writable where
  bound_lt := Reply.bound_form_lt codec.toWireTexts request.reply
  valid := by
    have hpaths := paths_valid hline
    rw [call, Reply.paths_form]
    cases outcome with
    | error err => exact List.forall_mem_nil _
    | ok done => cases request <;> exact hpaths

/-- What a patient client gets is what the node's own operation emits and ends with. -/
theorem returns_response (codec : WireCodec) (transport : Transport) (idle : ℕ)
    (request : StreamRequest) {line : List Char}
    (hline : encodeCommand codec request.command = .ok line) (ctx : NodeCtx) (run : StreamRun)
    (store : Store) :
    let response := request.respond ctx run store
    let call : Call request.reply.Payload :=
      ⟨codec, request.reply.form codec.toWireTexts, transport, idle, response.2⟩
    ∀ session result, Reachable (fun session => session.step call)
        (fun _ event => event.patient = true) (Session.start response.1 []) session →
      session.reader = .returned result →
        result = response.2.mapError .remote ∧ session.seen = response.1 := by
  intro response call session result hreachable hreader
  obtain ⟨outcome, houtcome⟩ := exists_outcome ctx run store request
  have hcall : call.Writable := by
    have hwritable := writable hline transport idle outcome
    rw [StreamRequest.call, ← houtcome] at hwritable
    exact hwritable
  have hsound := Session.sound_of_reachable hcall hreachable
  obtain ⟨hresult, hseen, -⟩ := hsound.of_returned hreader
  exact ⟨hresult, hseen⟩

end StreamRequest

/-- A patient client of a streaming command gets every progress frame in order, then the
result, and nothing else, whatever the order in which the operation, the handler and the
client go on; and every run gets there. -/
theorem streaming_call_delivers (codec : WireCodec) (errors : RequestErrors)
    (transport : Transport) (idle : ℕ) (request : StreamRequest)
    (frames : List FetchProgress) (outcome : Except CommandError Done) (line : List Char)
    (hline : encodeCommand codec request.command = .ok line) :
    let call := request.call codec transport idle outcome
    receiveCommand codec errors (Utf8.encodeChars line) = some (.ok request.command, []) ∧
    (∀ session, Reachable (fun session => session.step call)
        (fun _ event => event.patient = true) (Session.start frames []) session →
      session.seen <+: frames ∧ session.sent <+: Session.stream call frames ∧
      (∀ result, session.reader = .returned result →
        result = (outcome.map request.receipt).mapError .remote ∧ session.seen = frames ∧
          session.sent = Session.stream call frames ∧
          ∀ event, event.patient = true → session.step call event = none) ∧
      (∀ read, session.reader = .reading read →
        ∃ event, event.patient = true ∧ (session.step call event).isSome = true)) ∧
    ∀ events final, run (guarded (fun session => session.step call)
        fun _ event => event.patient = true) (Session.start frames []) events = some final →
      events.length ≤ Session.remaining call (Session.start frames []) := by
  intro call
  have hcall : call.Writable := StreamRequest.writable hline transport idle outcome
  refine ⟨receiveCommand_of_encodeCommand hline, ?_, ?_⟩
  · intro session hreachable
    have hsound := Session.sound_of_reachable hcall hreachable
    refine ⟨hsound.delivered.seen_prefix, hsound.sent_prefix, ?_,
      fun read hreader => Session.exists_step hsound hreader⟩
    · intro result hreader
      obtain ⟨hresult, hseen, hsent, hhandler⟩ := hsound.of_returned hreader
      exact ⟨hresult, hseen, hsent, fun event => Session.step_eq_none hreader hhandler⟩
  · intro events final hrun
    refine Reachable.start.length_le_of_run ?_ hrun
    intro session event next hreachable hpatient hnext
    have hsound := Session.sound_of_reachable hcall hreachable
    exact hsound.remaining_lt hcall (Session.moves_of_step hpatient hnext)

theorem streaming_call_delivers_download :
    let cid := blake3HashToCid (.filled 32 7) .blob
    let codec := WireCodec.sample (.filled 20 1) "rad:z2u2CP3ZJzB7ZqE8jHrau19yjpdip" cid
      "bafkr4ih" (.filled 32 3) "ae3q" (by decide) (by decide) (by decide) (by decide)
    let errors : RequestErrors := ⟨fun _ => "", fun _ => "", fun _ => "", fun _ => "", id⟩
    let request : StreamRequest := .download (.filled 20 1) cid [.iroh (.filled 32 3)]
      (Utf8.encode "out dir") none
    let frames : List FetchProgress := [.connecting, .downloading 3 none, .exporting 3 none none]
    let call := request.call codec .sync 60 (.ok ⟨3, false, false, .filled 32 3⟩)
    ∃ line, encodeCommand codec request.command = .ok line ∧
      receiveCommand codec errors (Utf8.encodeChars line) = some (.ok request.command, []) ∧
      ∀ session, Reachable (fun session => session.step call)
          (fun _ event => event.patient = true) (Session.start frames []) session →
        session.seen <+: frames ∧ session.sent <+: Session.stream call frames := by
  intro cid codec errors request frames call
  have hpath : PathsValid [Utf8.encode "out dir"] :=
    List.forall_mem_singleton.mpr ⟨_, Utf8.toStr_encode _⟩
  have hcmd : PathsValid request.command.paths := hpath
  obtain ⟨line, hline⟩ : ∃ line, encodeCommand codec request.command = .ok line := by
    obtain ⟨text, -, hline⟩ := exists_encodeCommand hcmd
    exact ⟨_, hline⟩
  have hdelivers := streaming_call_delivers codec errors .sync 60 request frames
    (.ok ⟨3, false, false, .filled 32 3⟩) _ hline
  refine ⟨_, hline, hdelivers.1, fun session hreachable => ?_⟩
  obtain ⟨hseen, hsent, -⟩ := hdelivers.2.1 session hreachable
  exact ⟨hseen, hsent⟩

end RadicleArtifact.Client
