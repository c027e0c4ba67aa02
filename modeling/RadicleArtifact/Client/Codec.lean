import RadicleArtifact.Core.Wire

/-!
# Line framing of the client

One JSON value per line: a command goes out with a newline at its end, a response or
a frame comes in with whatever white space the line ends in.
-/

namespace RadicleArtifact.Client

open RadicleArtifact.Core
open RadicleArtifact.Library

/-- `io::Error`, of which only the two kinds of a read timeout are told apart. -/
inductive IoError where
  | wouldBlock
  | timedOut
  | other (message : String)
  deriving DecidableEq

/-- Failure modes when calling the node. -/
inductive ClientError where
  | io (err : IoError)
  | json (message : String)
  | eof
  | timeout (duration : ℕ)
  | remote (err : CommandError)
  deriving DecidableEq

section Codec

variable (codec : WireCodec) {Payload : Type} (payload : WireForm Payload)

/-- Encode a command as a single newline-terminated JSON line. -/
def encodeCommand (cmd : Command) : Except ClientError (List Char) :=
  match (commandForm codec.toWireTexts).print codec.floats cmd with
  | .ok line => .ok (line ++ ['\n'])
  | .error err => .error (.json err)

/-- Decode a one-shot response line into the command's payload. -/
def decodeResult (line : List Char) : Except ClientError Payload :=
  match (commandResultForm payload).parse codec.floats (Utf8.trimEnd line) with
  | some (.okay value) => .ok value
  | some (.error err) => .error (.remote err)
  | none => .error (.json (codec.jsonError (Utf8.trimEnd line)))

/-- Decode one frame of a streaming response. -/
def decodeStreamEvent (line : List Char) : Except ClientError (StreamEvent Payload) :=
  match (streamEventForm codec.toWireTexts payload).parse codec.floats (Utf8.trimEnd line) with
  | some event => .ok event
  | none => .error (.json (codec.jsonError (Utf8.trimEnd line)))

end Codec

/-- What a call returns for a result. -/
def resultOf {Payload : Type} : CommandResult Payload → Except ClientError Payload
  | .okay value => .ok value
  | .error err => .error (.remote err)

end RadicleArtifact.Client
