import RadicleArtifact.Client.RoundTrip

/-!
# What a client does with a frame

Both transports read a line, decode it, and either report progress and read on or
return.  They differ in how they notice that no frame came for too long: the read of
the blocking one fails, and the asynchronous one gives the read up.
-/

namespace RadicleArtifact.Client

open RadicleArtifact.Core
open RadicleArtifact.Library
open RadicleArtifact.Node

/-- What waiting for the next line comes to. -/
inductive ReadLine where
  | read (line : Utf8.OsString)
  | failed (err : IoError)
  | elapsed

/-- What the loop of `call_streaming` does next. -/
inductive Turn (Payload : Type) where
  | progress (progress : FetchProgress)
  | done (result : Except ClientError Payload)

section Turns

variable (codec : WireCodec) {Payload : Type} (payload : WireForm Payload) (idle : ℕ)

/-- The body of the loop, for a line that was read. -/
def readFrame (line : Utf8.OsString) : Turn Payload :=
  match Utf8.toStr line with
  | none => .done (.error (.io (.other "stream did not contain valid UTF-8")))
  | some text =>
      if line.length = 0 then .done (.error .eof)
      else
        match decodeStreamEvent codec payload text.toList with
        | .error err => .done (.error err)
        | .ok (.progress progress) => .progress progress
        | .ok (.okay value) => .done (.ok value)
        | .ok (.error err) => .done (.error (.remote err))

namespace Sync

/-- Map a read-timeout error onto the timeout of the call. -/
def mapTimeout : ClientError → ClientError
  | .io .wouldBlock => .timeout idle
  | .io .timedOut => .timeout idle
  | other => other

/-- `call_streaming` over `std` sockets: every error it returns passes `map_timeout`. -/
def callStreaming (outcome : ReadLine) : Turn Payload :=
  let turn :=
    match outcome with
    | .read line => readFrame codec payload line
    | .failed err => .done (.error (.io err))
    | .elapsed => .done (.error (.io .wouldBlock))
  match turn with
  | .progress progress => .progress progress
  | .done result => .done (result.mapError (mapTimeout idle))

end Sync

namespace Tokio

/-- `call_streaming` over tokio sockets. -/
def callStreaming (outcome : ReadLine) : Turn Payload :=
  match outcome with
  | .elapsed => .done (.error (.timeout idle))
  | .failed err => .done (.error (.io err))
  | .read line => readFrame codec payload line

end Tokio

end Turns

inductive Transport where
  | sync
  | tokio
  deriving DecidableEq

def Transport.callStreaming (transport : Transport) (codec : WireCodec) {Payload : Type}
    (payload : WireForm Payload) (idle : ℕ) (outcome : ReadLine) : Turn Payload :=
  match transport with
  | .sync => Sync.callStreaming codec payload idle outcome
  | .tokio => Tokio.callStreaming codec payload idle outcome

/-- The loop's turn for a frame of the stream. -/
def Turn.ofEvent {Payload : Type} : StreamEvent Payload → Turn Payload
  | .progress update => .progress update
  | .okay value => .done (.ok value)
  | .error err => .done (.error (.remote err))

section Frames

variable {codec : WireCodec} {Payload : Type} {payload : WireForm Payload} {idle : ℕ}

/-- The bytes of a frame's line. -/
def frameBytes (codec : WireCodec) (payload : WireForm Payload) (event : StreamEvent Payload) :
    Utf8.OsString :=
  Utf8.encodeChars (writeFrame codec payload event)

/-- The transports read a frame of the node the same way. -/
theorem callStreaming_frameBytes {event : StreamEvent Payload}
    (hbound : payload.bound < Json.maxDepth) (hvalid : PathsValid (event.paths payload.paths))
    (transport : Transport) :
    transport.callStreaming codec payload idle (.read (frameBytes codec payload event)) =
      .ofEvent event := by
  have htext : Utf8.toStr (frameBytes codec payload event) =
      some (String.ofList (writeFrame codec payload event)) := by
    rw [Utf8.toStr_eq_some_iff, Utf8.encode, String.toList_ofList, frameBytes]
  have hlength : (frameBytes codec payload event).length ≠ 0 := by
    rw [frameBytes, writeFrame, Utf8.encodeChars, List.flatMap_append, List.length_append]
    exact Nat.succ_ne_zero _
  have hframe : readFrame codec payload (frameBytes codec payload event) = .ofEvent event := by
    simp only [readFrame, htext, if_neg hlength, String.toList_ofList,
      decodeStreamEvent_writeFrame hbound hvalid]
    cases event <;> rfl
  cases transport with
  | tokio => exact hframe
  | sync =>
      simp only [Transport.callStreaming, Sync.callStreaming, hframe]
      cases event <;> rfl

/-- A frame is one line. -/
theorem frameBytes_eq_line (codec : WireCodec) {event : StreamEvent Payload}
    (hvalid : PathsValid (event.paths payload.paths)) :
    ∃ body, frameBytes codec payload event = body ++ [Utf8.newline] ∧
      Utf8.newline ∉ body := by
  rw [← paths_streamEventForm codec.toWireTexts] at hvalid
  obtain ⟨text, htext⟩ := WireForm.exists_print hvalid
  refine ⟨Utf8.encodeChars text, ?_, ?_⟩
  · rw [frameBytes, writeFrame, encodeOr, htext, Utf8.encodeChars, List.flatMap_append]
    rfl
  · rw [Utf8.newline_mem_encodeChars]
    exact WireForm.newline_not_mem_of_print htext

end Frames

end RadicleArtifact.Client
