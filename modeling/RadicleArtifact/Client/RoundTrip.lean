import RadicleArtifact.Client.Codec
import RadicleArtifact.Node.Requests

/-!
# The client and the node read each other

The node reads back every command the client sends, and the client every response and
frame of the node.  A value is written when the paths in it are UTF-8: a command with
another path is not sent, and a receipt with one leaves the node as an error.
-/

namespace RadicleArtifact.Client

open RadicleArtifact.Core
open RadicleArtifact.Library
open RadicleArtifact.Node

section RoundTrip

variable {codec : WireCodec} {errors : RequestErrors}

theorem exists_encodeCommand {cmd : Command} (hcmd : PathsValid cmd.paths) :
    ∃ text, (commandForm codec.toWireTexts).print codec.floats cmd = .ok text ∧
      encodeCommand codec cmd = .ok (text ++ ['\n']) := by
  rw [← paths_commandForm codec.toWireTexts] at hcmd
  obtain ⟨text, htext⟩ := WireForm.exists_print hcmd
  exact ⟨text, htext, by rw [encodeCommand, htext]⟩

/-- A field that holds a printed text passes its check. -/
theorem checkField_eq_ok {Key : Type} {form : TextForm Key} {name : String}
    {error : String → String} {value : JsonValue}
    (hfield : ∀ found, value.json.get name = some found →
      ∃ key, found = .string (form.print key)) :
    checkField errors form name error value = .ok () := by
  rw [checkField]
  cases hfound : value.json.get name with
  | none => rfl
  | some found =>
      obtain ⟨key, rfl⟩ := hfield found hfound
      simp only [Option.bind_some, Json.asString, form.parse_print]

/-- The node reads a printed command as the command it is. -/
theorem parseCommand_of_print {cmd : Command} {text : List Char}
    (htext : (commandForm codec.toWireTexts).print codec.floats cmd = .ok text) :
    parseCommand codec errors text = .ok cmd := by
  obtain ⟨json, hjson, rfl⟩ := map_eq_ok_iff.mp htext
  have hshallow := (commandForm codec.toWireTexts).shallow hjson
  have hparsed : (Json.parse codec.floats (json.print codec.floats)).bind
      (Json.fromText JsonForm.value.read) = some (JsonValue.parse json) := by
    rw [Json.parse_print codec.floats hshallow.plain, Option.bind_some, Json.fromText,
      if_pos (hshallow.depth_le.trans (bound_commandForm_le _))]
    rfl
  have hvalue : (JsonValue.parse json).json = json :=
    Json.normalize_eq_of_normal json hshallow.normal
  have hrid : checkField errors codec.rid "rid" errors.rid (JsonValue.parse json) = .ok () := by
    refine checkField_eq_ok fun found hfound => ?_
    rw [hvalue] at hfound
    exact WireForm.exists_print_of_get_taggedEnum (by decide) (hasText_rid _) hjson hfound
  have hcid : checkField errors codec.cid "cid" errors.cid (JsonValue.parse json) = .ok () := by
    refine checkField_eq_ok fun found hfound => ?_
    rw [hvalue] at hfound
    exact WireForm.exists_print_of_get_taggedEnum (by decide) (hasText_cid _) hjson hfound
  simp only [parseCommand, hparsed, hrid, hcid, hvalue, bind, Except.bind,
    (commandForm codec.toWireTexts).read_write hjson]

/-- The node reads the command of a line from the line's bytes, and nothing behind it. -/
theorem receiveCommand_of_encodeCommand {cmd : Command} {line : List Char}
    (hline : encodeCommand codec cmd = .ok line) :
    receiveCommand codec errors (Utf8.encodeChars line) = some (.ok cmd, []) := by
  rw [encodeCommand] at hline
  split at hline
  · rename_i text htext
    obtain rfl := Except.ok.inj hline
    have hbytes : Utf8.encodeChars (text ++ ['\n']) =
        Utf8.encodeChars text ++ [Utf8.newline] := by
      rw [Utf8.encodeChars, List.flatMap_append]
      rfl
    have hnone : Utf8.newline ∉ Utf8.encodeChars text := by
      rw [Utf8.newline_mem_encodeChars]
      exact WireForm.newline_not_mem_of_print htext
    have htake := Utf8.takeLine_append hnone []
    have htoStr : Utf8.toStr (Utf8.encodeChars (text ++ ['\n'])) =
        some (String.ofList (text ++ ['\n'])) := by
      rw [Utf8.toStr_eq_some_iff, Utf8.encode, String.toList_ofList]
    rw [← hbytes] at htake
    simp only [receiveCommand, htake, Option.bind_eq_bind, Option.bind_some, htoStr,
      String.toList_ofList, WireForm.trimEnd_of_print (objects_commandForm _) htext,
      parseCommand_of_print htext]
    rfl
  · contradiction

section Replies

variable {Payload : Type} {payload : WireForm Payload}

/-- The node's response for a result. -/
def response (codec : WireCodec) (payload : WireForm Payload) :
    CommandResult Payload → List Char
  | .okay value => okJson codec payload value
  | .error err => errJson codec payload err.code err.message

theorem response_eq_encodeOr (result : CommandResult Payload) :
    response codec payload result = encodeOr codec (commandResultForm payload) result := by
  cases result <;> rfl

/-- What is written by the node is trimmed and read by the client. -/
theorem parse_trimEnd_encodeOr (codec : WireCodec) {Value : Type} {form : WireForm Value}
    {value : Value}
    (hobjects : form.Objects) (hbound : form.bound ≤ Json.maxDepth)
    (hvalid : form.PathsValid value) :
    form.parse codec.floats (Utf8.trimEnd (encodeOr codec form value ++ ['\n'])) =
      some value := by
  obtain ⟨text, htext⟩ := WireForm.exists_print hvalid
  have hline : encodeOr codec form value = text := by rw [encodeOr, htext]
  rw [hline, WireForm.trimEnd_of_print hobjects htext, WireForm.parse_of_print hbound htext]

theorem decodeResult_response {result : CommandResult Payload}
    (hbound : payload.bound < Json.maxDepth) (hvalid : PathsValid (result.paths payload.paths)) :
    decodeResult codec payload (writeLine (response codec payload result)) =
      resultOf result := by
  rw [← paths_commandResultForm] at hvalid
  have hread := parse_trimEnd_encodeOr codec objects_commandResultForm
    (bound_commandResultForm_le hbound) hvalid
  rw [decodeResult, writeLine, response_eq_encodeOr, hread]
  cases result <;> rfl

theorem decodeStreamEvent_writeFrame {event : StreamEvent Payload}
    (hbound : payload.bound < Json.maxDepth) (hvalid : PathsValid (event.paths payload.paths)) :
    decodeStreamEvent codec payload (writeFrame codec payload event) = .ok event := by
  rw [← paths_streamEventForm codec.toWireTexts] at hvalid
  have hread := parse_trimEnd_encodeOr codec (objects_streamEventForm _)
    (bound_streamEventForm_le _ hbound) hvalid
  rw [decodeStreamEvent, writeFrame, hread]

end Replies

/-- Every command, response and frame whose paths are UTF-8 is one line that the other
side reads as what it was. -/
theorem wire_round_trip (codec : WireCodec) (errors : RequestErrors) :
    (∀ cmd : Command, PathsValid cmd.paths →
      ∃ body, encodeCommand codec cmd = .ok (body ++ ['\n']) ∧
        Utf8.newline ∉ Utf8.encodeChars body ∧
        parseCommand codec errors (Utf8.trimEnd (body ++ ['\n'])) = .ok cmd) ∧
    ∀ reply : Reply,
      (∀ result : CommandResult reply.Payload, PathsValid (result.paths reply.paths) →
        decodeResult codec (reply.form codec.toWireTexts)
          (writeLine (response codec (reply.form codec.toWireTexts) result)) =
            resultOf result) ∧
      ∀ event : StreamEvent reply.Payload, PathsValid (event.paths reply.paths) →
        decodeStreamEvent codec (reply.form codec.toWireTexts)
          (writeFrame codec (reply.form codec.toWireTexts) event) = .ok event := by
  constructor
  · intro cmd hcmd
    obtain ⟨text, htext, hline⟩ := exists_encodeCommand hcmd
    refine ⟨text, hline, ?_, ?_⟩
    · rw [Utf8.newline_mem_encodeChars]
      exact WireForm.newline_not_mem_of_print htext
    · rw [WireForm.trimEnd_of_print (objects_commandForm _) htext]
      exact parseCommand_of_print htext
  · intro reply
    have hbound := Reply.bound_form_lt codec.toWireTexts reply
    have hpaths := Reply.paths_form codec.toWireTexts reply
    rw [← hpaths]
    exact ⟨fun result hresult => decodeResult_response hbound hresult,
      fun event hevent => decodeStreamEvent_writeFrame hbound hevent⟩

end RoundTrip

theorem wire_round_trip_of_download :
    let cid := blake3HashToCid (.filled 32 7) .blob
    let codec := WireCodec.sample (.filled 20 1) "rad:z2u2CP3ZJzB7ZqE8jHrau19yjpdip" cid
      "bafkr4ih" (.filled 32 3) "ae3q" (by decide) (by decide) (by decide) (by decide)
    let errors : RequestErrors := ⟨fun _ => "", fun _ => "", fun _ => "", fun _ => "", id⟩
    let cmd : Command := .download (.filled 20 1) cid [.iroh (.filled 32 3)]
      (Utf8.encode "out \n dir ") (some (.filled 20 5))
    let receipt : DownloadReceipt := ⟨.filled 20 1, cid, Utf8.encode "out \n dir ", 3, false,
      true, .filled 32 3⟩
    (∃ body, encodeCommand codec cmd = .ok (body ++ ['\n']) ∧
      Utf8.newline ∉ Utf8.encodeChars body ∧
      parseCommand codec errors (Utf8.trimEnd (body ++ ['\n'])) = .ok cmd) ∧
    decodeStreamEvent codec (downloadReceiptForm codec.toWireTexts)
      (writeFrame codec (downloadReceiptForm codec.toWireTexts) (.okay receipt)) =
        .ok (.okay receipt) := by
  intro cid codec errors cmd receipt
  have hpath : PathsValid [Utf8.encode "out \n dir "] :=
    List.forall_mem_singleton.mpr ⟨_, Utf8.toStr_encode _⟩
  exact ⟨(wire_round_trip codec errors).1 cmd hpath,
    ((wire_round_trip codec errors).2 .download).2 (.okay receipt) hpath⟩

/-- What the node sends in place of a value with a path that is not UTF-8 is an error that
says so. -/
theorem encodeFailed_eq (codec : WireCodec) {Payload : Type} (payload : WireForm Payload) :
    encodeFailed "path contains invalid UTF-8 characters" =
      encodeOr codec (streamEventForm codec.toWireTexts payload)
        (.error ⟨.internal, "encode: path contains invalid UTF-8 characters"⟩) := by
  have hwrite : (streamEventForm codec.toWireTexts payload).write
      (.error ⟨.internal, "encode: path contains invalid UTF-8 characters"⟩) =
        .ok (.object [("error", .object [("code", .string "internal"),
          ("message", .string "encode: path contains invalid UTF-8 characters")])]) := rfl
  rw [encodeOr, WireForm.print, hwrite]
  simp only [Except.map, Json.print, Json.printMembers, List.isEmpty_cons, List.isEmpty_nil,
    if_true, Bool.false_eq_true, if_false]
  decide

theorem invalid_dest_decodes_as_error :
    let cid := blake3HashToCid (.filled 32 7) .blob
    let codec := WireCodec.sample (.filled 20 1) "rad:z2u2CP3ZJzB7ZqE8jHrau19yjpdip" cid
      "bafkr4ih" (.filled 32 3) "ae3q" (by decide) (by decide) (by decide) (by decide)
    let receipt : ExportReceipt := ⟨cid, [0xff], 3⟩
    decodeStreamEvent codec (exportReceiptForm codec.toWireTexts)
      (writeFrame codec (exportReceiptForm codec.toWireTexts) (.okay receipt)) =
        .ok (.error ⟨.internal, "encode: path contains invalid UTF-8 characters"⟩) := by
  intro cid codec receipt
  have htoStr : Utf8.toStr [0xff] = none := by decide
  have hpath : WireForm.path.write [0xff] =
      .error "path contains invalid UTF-8 characters" := by
    simp only [WireForm.path, htoStr]
  have hwrite : (streamEventForm codec.toWireTexts (exportReceiptForm codec.toWireTexts)).write
      (.okay receipt) = .error "path contains invalid UTF-8 characters" := by
    simp [streamEventForm, WireForm.keyedEnum, exportReceiptForm, WireForm.map,
      RecordForm.record, RecordForm.cons, FieldForm.required, FieldForm.written, receipt, hpath,
      RecordForm.writeBoth, Except.map, bind, Except.bind, WireForm.text, WireForm.ofForm]
  rw [writeFrame, encodeOr, WireForm.print, hwrite]
  simp only [Except.map]
  rw [encodeFailed_eq codec (exportReceiptForm codec.toWireTexts)]
  exact decodeStreamEvent_writeFrame (by decide) (List.forall_mem_nil _)

end RadicleArtifact.Client
