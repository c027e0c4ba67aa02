import RadicleArtifact.Core.Wire

/-!
# Requests and responses of the node

A command line is read in two steps, so that a malformed repository or content id is
reported by the name of its field.  Responses and frames are one line each; one that
cannot be written is replaced by an error.
-/

namespace RadicleArtifact.Node

open RadicleArtifact.Core
open RadicleArtifact.Library

/-- The texts of errors in a request. -/
structure RequestErrors where
  json : List Char → String
  rid : String → String
  cid : String → String
  command : JsonValue → String
  /-- `Debug` of a string. -/
  debug : String → String

section Requests

variable (codec : WireCodec) (errors : RequestErrors)

/-- `from_str` of one field, where the value has a string there. -/
def checkField {Key : Type} (form : TextForm Key) (name : String) (error : String → String)
    (value : JsonValue) : Except CommandError Unit :=
  match (value.json.get name).bind Json.asString with
  | none => .ok ()
  | some text =>
      match form.parse text with
      | some _ => .ok ()
      | none =>
          .error ⟨.invalidRequest,
            "invalid " ++ name ++ " " ++ errors.debug text ++ ": " ++ error text⟩

/-- Two-step wire decode. -/
def parseCommand (line : List Char) : Except CommandError Command :=
  match (Json.parse codec.floats line).bind (Json.fromText JsonForm.value.read) with
  | none => .error ⟨.invalidRequest, "invalid command JSON: " ++ errors.json line⟩
  | some value => do
      checkField errors codec.rid "rid" errors.rid value
      checkField errors codec.cid "cid" errors.cid value
      match (commandForm codec.toWireTexts).read value.json with
      | some cmd => .ok cmd
      | none => .error ⟨.invalidRequest, "invalid command: " ++ errors.command value⟩

/-- The command of a connection, when its line and no more than that has been read, and
what the client sent behind it. -/
def receiveCommand (sent : Utf8.OsString) :
    Option (Except CommandError Command × Utf8.OsString) := do
  let (line, rest) ← Utf8.takeLine sent
  let text ← Utf8.toStr line
  return (parseCommand codec errors (Utf8.trimEnd text.toList), rest)

/-- What stands in for a response that cannot be written. -/
def encodeFailed (err : String) : List Char :=
  "\x7b\"error\":\x7b\"code\":\"internal\",\"message\":\"encode: ".toList ++ err.toList ++
    "\"\x7d\x7d".toList

/-- `to_string`, with the replacement for what cannot be written. -/
def encodeOr {Value : Type} (form : WireForm Value) (value : Value) : List Char :=
  match form.print codec.floats value with
  | .ok text => text
  | .error err => encodeFailed err

section Responses

variable {Payload : Type} (payload : WireForm Payload)

def okJson (value : Payload) : List Char :=
  encodeOr codec (commandResultForm payload) (.okay value)

def errJson (code : ErrorCode) (message : String) : List Char :=
  encodeOr codec (commandResultForm payload) (.error ⟨code, message⟩)

/-- The line of a response. -/
def writeLine (response : List Char) : List Char :=
  response ++ ['\n']

/-- The line of a stream frame. -/
def writeFrame (event : StreamEvent Payload) : List Char :=
  encodeOr codec (streamEventForm codec.toWireTexts payload) event ++ ['\n']

end Responses

end Requests

end RadicleArtifact.Node
