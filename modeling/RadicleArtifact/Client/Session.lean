import RadicleArtifact.Client.Streaming
import RadicleArtifact.Library.Transition
import RadicleArtifact.Node.Stream

/-!
# A streaming call

The operation, the handler that forwards its progress and the client run side by side.
The operation puts progress frames into a channel, `run_stream` takes them out and
writes their lines in parts, and the client takes what arrived in parts and puts the
lines together.  The operation may go on at any time here, also while the handler
writes, though the handler of the node polls it only in `select!`.
-/

namespace RadicleArtifact.Client

open RadicleArtifact.Core
open RadicleArtifact.Library
open RadicleArtifact.Node

/-- Where the handler goes on when a line is written. -/
inductive After where
  | select
  | flush
  | done
  deriving DecidableEq

inductive Handler where
  | selecting
  | writing (rest : Utf8.OsString) (after : After)
  | flushing
  | returned
  deriving DecidableEq

def After.handler : After → Handler
  | .select => .selecting
  | .flush => .flushing
  | .done => .returned

namespace Handler

/-- The part of the current line that is not written. -/
@[simp]
def unsent : Handler → Utf8.OsString
  | selecting => []
  | writing rest _ => rest
  | flushing => []
  | returned => []

/-- The operation was seen to have finished. -/
@[simp]
def finishing : Handler → Bool
  | selecting => false
  | writing _ after => after ≠ .select
  | flushing => true
  | returned => true

/-- The terminal frame is under way. -/
@[simp]
def ending : Handler → Bool
  | selecting => false
  | writing _ after => after = .done
  | flushing => false
  | returned => true

theorem finishing_of_ending {handler : Handler} (hending : handler.ending = true) :
    handler.finishing = true := by
  cases handler with
  | writing rest after => cases after <;> simp_all
  | _ => simp_all

end Handler

inductive Reader (Payload : Type) where
  /-- In `read_line`, with the part of the line that was read. -/
  | reading (line : Utf8.OsString)
  | returned (result : Except ClientError Payload)

/-- What a streaming call depends on. -/
structure Call (Payload : Type) where
  codec : WireCodec
  payload : WireForm Payload
  transport : Transport
  idle : ℕ
  /-- What the operation returns. -/
  result : Except CommandError Payload

structure Session (Payload : Type) where
  /-- The frames the operation has yet to emit. -/
  pending : List FetchProgress
  finished : Bool
  channel : List FetchProgress
  handler : Handler
  /-- What the node has not read of the client's bytes. -/
  inbound : Utf8.OsString
  /-- All that the handler has written. -/
  sent : Utf8.OsString
  /-- What the client has not taken from the socket. -/
  wire : Utf8.OsString
  buffer : Utf8.OsString
  reader : Reader Payload
  /-- The calls of `on_progress`. -/
  seen : List FetchProgress

inductive Step where
  | emit
  | finish
  | select
  | flush
  | write (count : ℕ)
  | fill (count : ℕ)
  | consume
  | eof
  /-- No frame comes for as long as the client waits for one. -/
  | elapse
  /-- The client sends something after its command. -/
  | interject (bytes : Utf8.OsString)

namespace Session

variable {Payload : Type} (call : Call Payload) (session : Session Payload)

/-! ## The operation -/

def emit : Option (Session Payload) :=
  match session.pending with
  | [] => none
  | progress :: later =>
      if session.handler = .returned then none
      else some { session with
        pending := later
        channel := session.channel ++ [progress] }

def finish : Option (Session Payload) :=
  if session.handler = .returned ∨ session.finished ∨ session.pending ≠ [] then none
  else some { session with finished := true }

/-! ## `run_stream` -/

def terminal : StreamEvent Payload :=
  match call.result with
  | .ok value => .okay value
  | .error err => .error err

def bytesOf (event : StreamEvent Payload) : Utf8.OsString :=
  frameBytes call.codec call.payload event

/-- The client returned and its end of the socket is closed. -/
def hungUp : Bool :=
  match session.reader with
  | .reading _ => false
  | .returned _ => true

/-- The arms of `select!`, in their order. -/
def select : Option (Session Payload) :=
  if session.handler ≠ .selecting then none
  else if session.finished then some { session with handler := .flushing }
  else
    match session.channel with
    | progress :: later =>
        some { session with
          channel := later
          handler := .writing (bytesOf call (.progress progress)) .select }
    | [] =>
        if session.inbound ≠ [] ∨ session.hungUp then some { session with handler := .returned }
        else none

/-- One round of the `try_recv` loop, or the terminal frame behind it. -/
def flush : Option (Session Payload) :=
  if session.handler ≠ .flushing then none
  else
    match session.channel with
    | progress :: later =>
        some { session with
          channel := later
          handler := .writing (bytesOf call (.progress progress)) .flush }
    | [] =>
        some { session with handler := .writing (bytesOf call (terminal call)) .done }

/-- One write of `write_all`, which fails when the client has closed the socket. -/
def write (count : ℕ) : Option (Session Payload) :=
  match session.handler with
  | .writing rest after =>
      if session.hungUp then some { session with handler := .returned }
      else if count = 0 ∨ rest.length < count then none
      else some { session with
        sent := session.sent ++ rest.take count
        wire := session.wire ++ rest.take count
        handler :=
          if count = rest.length then after.handler
          else .writing (rest.drop count) after }
  | _ => none

/-! ## The client -/

/-- The loop's turn for what waiting for a line came to. -/
def turn (outcome : ReadLine) (rest : Utf8.OsString) : Session Payload :=
  match call.transport.callStreaming call.codec call.payload call.idle outcome with
  | .progress progress =>
      { session with
        buffer := rest
        reader := .reading []
        seen := session.seen ++ [progress] }
  | .done result => { session with buffer := rest, reader := .returned result }

/-- `fill_buf` on an empty buffer. -/
def fill (count : ℕ) : Option (Session Payload) :=
  match session.reader with
  | .reading _ =>
      if session.buffer ≠ [] ∨ count = 0 ∨ session.wire.length < count then none
      else some { session with
        buffer := session.wire.take count
        wire := session.wire.drop count }
  | .returned _ => none

/-- Take the buffer up to a newline into the line. -/
def consume : Option (Session Payload) :=
  match session.reader with
  | .reading line =>
      if session.buffer = [] then none
      else
        match Utf8.takeLine session.buffer with
        | some (taken, rest) => some (session.turn call (.read (line ++ taken)) rest)
        | none => some { session with buffer := [], reader := .reading (line ++ session.buffer) }
  | .returned _ => none

/-- The end of the stream ends the line. -/
def eof : Option (Session Payload) :=
  match session.reader with
  | .reading line =>
      if session.handler = .returned ∧ session.wire = [] ∧ session.buffer = [] then
        some (session.turn call (.read line) [])
      else none
  | .returned _ => none

def elapse : Option (Session Payload) :=
  match session.reader with
  | .reading _ => some (session.turn call .elapsed session.buffer)
  | .returned _ => none

def interject (bytes : Utf8.OsString) : Option (Session Payload) :=
  if session.hungUp then none else some { session with inbound := session.inbound ++ bytes }

def step : Step → Option (Session Payload)
  | .emit => session.emit
  | .finish => session.finish
  | .select => session.select call
  | .flush => session.flush call
  | .write count => session.write count
  | .fill count => session.fill count
  | .consume => session.consume call
  | .eof => session.eof call
  | .elapse => session.elapse call
  | .interject bytes => session.interject bytes

/-- A call whose command line was read, with what the node has of the client behind it. -/
def start (frames : List FetchProgress) (inbound : Utf8.OsString) : Session Payload where
  pending := frames
  finished := false
  channel := []
  handler := .selecting
  inbound := inbound
  sent := []
  wire := []
  buffer := []
  reader := .reading []
  seen := []

end Session

/-- The client stays connected and sends nothing after its command. -/
def Step.patient : Step → Bool
  | .elapse => false
  | .interject _ => false
  | _ => true

namespace Session

variable {Payload : Type} {call : Call Payload} {frames : List FetchProgress}
  {session next : Session Payload}

/-! ## What a step can do -/

/-- The steps of a patient call. -/
inductive Moves (call : Call Payload) (session : Session Payload) : Session Payload → Prop
  | emit {progress : FetchProgress} {later : List FetchProgress}
      (hpending : session.pending = progress :: later) (hhandler : session.handler ≠ .returned) :
      Moves call session { session with
        pending := later
        channel := session.channel ++ [progress] }
  | finish (hpending : session.pending = []) (hfinished : session.finished = false) :
      Moves call session { session with finished := true }
  | selectFinished (hhandler : session.handler = .selecting)
      (hfinished : session.finished = true) :
      Moves call session { session with handler := .flushing }
  | selectProgress {progress : FetchProgress} {later : List FetchProgress}
      (hhandler : session.handler = .selecting) (hchannel : session.channel = progress :: later) :
      Moves call session { session with
        channel := later
        handler := .writing (bytesOf call (.progress progress)) .select }
  | probe (hhandler : session.handler = .selecting)
      (hclient : session.inbound ≠ [] ∨ session.hungUp = true) :
      Moves call session { session with handler := .returned }
  | flushProgress {progress : FetchProgress} {later : List FetchProgress}
      (hhandler : session.handler = .flushing) (hchannel : session.channel = progress :: later) :
      Moves call session { session with
        channel := later
        handler := .writing (bytesOf call (.progress progress)) .flush }
  | flushTerminal (hhandler : session.handler = .flushing) (hchannel : session.channel = []) :
      Moves call session
        { session with handler := .writing (bytesOf call (terminal call)) .done }
  | writeFailed {rest : Utf8.OsString} {after : After}
      (hhandler : session.handler = .writing rest after) (hclient : session.hungUp = true) :
      Moves call session { session with handler := .returned }
  | writeAll {rest : Utf8.OsString} {after : After}
      (hhandler : session.handler = .writing rest after) (hrest : rest ≠ []) :
      Moves call session { session with
        sent := session.sent ++ rest
        wire := session.wire ++ rest
        handler := after.handler }
  | writePart {part rest : Utf8.OsString} {after : After}
      (hhandler : session.handler = .writing (part ++ rest) after) (hpart : part ≠ [])
      (hrest : rest ≠ []) :
      Moves call session { session with
        sent := session.sent ++ part
        wire := session.wire ++ part
        handler := .writing rest after }
  | fill {line part rest : Utf8.OsString} (hreader : session.reader = .reading line)
      (hbuffer : session.buffer = []) (hwire : session.wire = part ++ rest) (hpart : part ≠ []) :
      Moves call session { session with buffer := part, wire := rest }
  | consumeLine {line taken rest : Utf8.OsString} (hreader : session.reader = .reading line)
      (htake : Utf8.takeLine session.buffer = some (taken, rest)) :
      Moves call session (session.turn call (.read (line ++ taken)) rest)
  | consumePart {line : Utf8.OsString} (hreader : session.reader = .reading line)
      (hbuffer : session.buffer ≠ []) (htake : Utf8.takeLine session.buffer = none) :
      Moves call session
        { session with buffer := [], reader := .reading (line ++ session.buffer) }
  | eof {line : Utf8.OsString} (hreader : session.reader = .reading line)
      (hhandler : session.handler = .returned) (hwire : session.wire = [])
      (hbuffer : session.buffer = []) :
      Moves call session (session.turn call (.read line) [])

theorem moves_of_select (hnext : session.select call = some next) : Moves call session next := by
  rw [select] at hnext
  split at hnext
  · contradiction
  · rename_i hhandler
    rw [ne_eq, not_not] at hhandler
    split at hnext
    · rename_i hfinished
      exact Option.some.inj hnext ▸ .selectFinished hhandler hfinished
    · split at hnext
      · rename_i progress later hchannel
        exact Option.some.inj hnext ▸ .selectProgress hhandler hchannel
      · split at hnext
        · rename_i hclient
          exact Option.some.inj hnext ▸ .probe hhandler hclient
        · contradiction

theorem moves_of_flush (hnext : session.flush call = some next) : Moves call session next := by
  rw [flush] at hnext
  split at hnext
  · contradiction
  · rename_i hhandler
    rw [ne_eq, not_not] at hhandler
    split at hnext
    · rename_i progress later hchannel
      exact Option.some.inj hnext ▸ .flushProgress hhandler hchannel
    · rename_i hchannel
      exact Option.some.inj hnext ▸ .flushTerminal hhandler hchannel

theorem moves_of_write {count : ℕ} (hnext : session.write count = some next) :
    Moves call session next := by
  rw [write] at hnext
  split at hnext
  · rename_i rest after hhandler
    split at hnext
    · rename_i hclient
      exact Option.some.inj hnext ▸ .writeFailed hhandler hclient
    · split at hnext
      · contradiction
      · rename_i hcount
        obtain ⟨hpos, hle⟩ := not_or.mp hcount
        rw [not_lt] at hle
        obtain rfl := Option.some.inj hnext
        by_cases hall : count = rest.length
        · have hrest : rest ≠ [] := fun hnil => hpos (hall.trans (hnil ▸ rfl))
          rw [if_pos hall, hall, List.take_length]
          exact .writeAll hhandler hrest
        · rw [if_neg hall]
          refine .writePart (by rw [hhandler, List.take_append_drop]) ?_ ?_
          · rw [ne_eq, List.take_eq_nil_iff]
            rintro (hzero | rfl)
            · exact hpos hzero
            · exact hpos (Nat.le_zero.mp hle)
          · rw [ne_eq, List.drop_eq_nil_iff]
            exact fun hlength => hall (le_antisymm hle hlength)
  · contradiction

theorem moves_of_fill {count : ℕ} (hnext : session.fill count = some next) :
    Moves call session next := by
  rw [fill] at hnext
  split at hnext
  · rename_i line hreader
    split at hnext
    · contradiction
    · rename_i hcount
      obtain ⟨hbuffer, hcount⟩ := not_or.mp hcount
      obtain ⟨hpos, hle⟩ := not_or.mp hcount
      obtain rfl := Option.some.inj hnext
      refine .fill hreader (not_not.mp hbuffer) (List.take_append_drop count _).symm ?_
      rw [ne_eq, List.take_eq_nil_iff]
      rintro (hzero | hnil)
      · exact hpos hzero
      · rw [hnil] at hle
        exact hle (Nat.pos_of_ne_zero hpos)
  · contradiction

theorem moves_of_consume (hnext : session.consume call = some next) :
    Moves call session next := by
  rw [consume] at hnext
  split at hnext
  · rename_i line hreader
    split at hnext
    · contradiction
    · rename_i hbuffer
      split at hnext
      · rename_i taken rest htake
        exact Option.some.inj hnext ▸ .consumeLine hreader htake
      · rename_i htake
        exact Option.some.inj hnext ▸ .consumePart hreader hbuffer htake
  · contradiction

theorem moves_of_eof (hnext : session.eof call = some next) : Moves call session next := by
  rw [eof] at hnext
  split at hnext
  · rename_i line hreader
    split at hnext
    · rename_i hend
      obtain ⟨hhandler, hwire, hbuffer⟩ := hend
      exact Option.some.inj hnext ▸ .eof hreader hhandler hwire hbuffer
    · contradiction
  · contradiction

theorem moves_of_emit (hnext : session.emit = some next) : Moves call session next := by
  rw [emit] at hnext
  split at hnext
  · contradiction
  · rename_i progress later hpending
    split at hnext
    · contradiction
    · rename_i hhandler
      exact Option.some.inj hnext ▸ .emit hpending hhandler

theorem moves_of_finish (hnext : session.finish = some next) : Moves call session next := by
  rw [finish] at hnext
  split at hnext
  · contradiction
  · rename_i hrunning
    obtain ⟨-, hrunning⟩ := not_or.mp hrunning
    obtain ⟨hfinished, hpending⟩ := not_or.mp hrunning
    exact Option.some.inj hnext ▸
      .finish (not_not.mp hpending) (Bool.eq_false_iff.mpr hfinished)

theorem moves_of_step {event : Step} (hpatient : event.patient = true)
    (hnext : session.step call event = some next) : Moves call session next := by
  cases event with
  | emit => exact moves_of_emit hnext
  | finish => exact moves_of_finish hnext
  | select => exact moves_of_select hnext
  | flush => exact moves_of_flush hnext
  | write count => exact moves_of_write hnext
  | fill count => exact moves_of_fill hnext
  | consume => exact moves_of_consume hnext
  | eof => exact moves_of_eof hnext
  | elapse => contradiction
  | interject bytes => contradiction

end Session

end RadicleArtifact.Client
