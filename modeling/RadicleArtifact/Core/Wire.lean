import RadicleArtifact.Core.Keys
import RadicleArtifact.Core.Protocol
import RadicleArtifact.Library.Wire

/-!
# JSON forms of the wire protocol

Every command, receipt and frame as JSON.  Commands and progress frames name their
variant in a member of their own, locations and envelopes in their only key.
-/

namespace RadicleArtifact.Core

open RadicleArtifact.Library

/-- The text forms of the identifiers on the wire. -/
structure WireTexts extends TextForms where
  rid : TextForm RepoId
  endpoints : EndpointForms

/-- What text on the wire depends on. -/
structure WireCodec extends WireTexts where
  floats : Json.Floats
  /-- `Display` of the error for a text that does not read as wanted. -/
  jsonError : List Char → String

/-- An endpoint is written as its URL. -/
def WireTexts.endpoint (texts : WireTexts) : TextForm EndpointId where
  print id := (texts.endpoints.toUrl id).serialization
  parse text := (texts.url.parse text).bind fun url =>
    match texts.endpoints.fromUrl url with
    | .ok id => id
    | .error _ => none
  parse_print id := by
    rw [← texts.print_url, texts.url.parse_print, Option.bind_some, EndpointForms.fromUrl_toUrl]

/-- A codec whose texts for one repository, content identifier and endpoint are given. -/
noncomputable def WireCodec.sample (rid : RepoId) (ridText : String) (cid : Cid)
    (cidText : String) (endpoint : EndpointId) (host : String) (hrid : '#' ∉ ridText.toList)
    (hcid : '#' ∉ cidText.toList) (hhost : '#' ∉ host.toList) (hne : host ≠ "") :
    WireCodec where
  toTextForms := .sample endpoint host cid cidText hhost hcid
  rid := .sample rid ridText hrid
  endpoints := .sample endpoint host hhost hne
  floats := ⟨fun _ => [], fun _ => none⟩
  jsonError _ := "expected value at line 1 column 1"

/-! ## Enumerations -/

def artifactKindForm : WireForm ArtifactKind :=
  .unitEnum
    { print := fun
        | .blob => "blob"
        | .collection => "collection"
      parse := fun
        | "blob" => some .blob
        | "collection" => some .collection
        | _ => none
      parse_print := fun kind => by cases kind <;> rfl }

def importModeForm : WireForm ImportMode :=
  .unitEnum
    { print := fun
        | .copy => "copy"
        | .reference => "reference"
      parse := fun
        | "copy" => some .copy
        | "reference" => some .reference
        | _ => none
      parse_print := fun mode => by cases mode <;> rfl }

def errorCodeForm : WireForm ErrorCode :=
  .unitEnum
    { print := fun
        | .cidMismatch => "cidMismatch"
        | .pathNotFound => "pathNotFound"
        | .notSeeding => "notSeeding"
        | .io => "io"
        | .iroh => "iroh"
        | .invalidRequest => "invalidRequest"
        | .notLocal => "notLocal"
        | .noLocations => "noLocations"
        | .allFailed => "allFailed"
        | .internal => "internal"
      parse := fun
        | "cidMismatch" => some .cidMismatch
        | "pathNotFound" => some .pathNotFound
        | "notSeeding" => some .notSeeding
        | "io" => some .io
        | "iroh" => some .iroh
        | "invalidRequest" => some .invalidRequest
        | "notLocal" => some .notLocal
        | "noLocations" => some .noLocations
        | "allFailed" => some .allFailed
        | "internal" => some .internal
        | _ => none
      parse_print := fun code => by cases code <;> rfl }

/-! ## Optional values -/

def optionalBool : WireForm (Option Bool) :=
  WireForm.bool.option fun _ hnull => Json.noConfusion (Except.ok.inj hnull)

def optionalU64 : WireForm (Option UInt64) :=
  WireForm.u64.option fun _ hnull => Json.noConfusion (Except.ok.inj hnull)

def optionalString : WireForm (Option String) :=
  WireForm.string.option fun _ hnull => Json.noConfusion (Except.ok.inj hnull)

theorem write_text_ne_null {Value : Type} (form : TextForm Value) (value : Value) :
    (WireForm.text form).write value ≠ .ok .null :=
  fun hnull => Json.noConfusion (Except.ok.inj hnull)

/-! ## Results -/

open FieldForm RecordForm

def commandErrorForm : WireForm CommandError :=
  ((cons "code" (required errorCodeForm) <| cons "message" (required .string) nil).record
    (by simp)).map (fun (code, message, ()) => ⟨code, message⟩)
    (fun err => (err.code, err.message, ())) fun _ => rfl

def hasResultForm : WireForm HasResult :=
  ((cons "present" (required .bool) <| cons "complete" (required .bool) <|
    cons "bytes" (required .u64) nil).record (by simp)).map
    (fun (present, complete, bytes, ()) => ⟨present, complete, bytes⟩)
    (fun result => (result.present, result.complete, result.bytes, ())) fun _ => rfl

def seededStatsForm : WireForm SeededStats :=
  ((cons "count" (required .u64) <| cons "bytesLogical" (required .u64) nil).record
    (by simp)).map (fun (count, bytesLogical, ()) => ⟨count, bytesLogical⟩)
    (fun stats => (stats.count, stats.bytesLogical, ())) fun _ => rfl

def connectionStatsForm : WireForm ConnectionStats :=
  ((cons "active" (required .u32) <| cons "openedTotal" (required .u64) <|
    cons "closedTotal" (required .u64) <| cons "directTotal" (required .u64) <|
    cons "holepunchAttempts" (required .u64) <| cons "pathsDirect" (required .u64) <|
    cons "pathsRelayed" (required .u64) nil).record (by simp)).map
    (fun (active, openedTotal, closedTotal, directTotal, holepunchAttempts, pathsDirect,
        pathsRelayed, ()) =>
      ⟨active, openedTotal, closedTotal, directTotal, holepunchAttempts, pathsDirect,
        pathsRelayed⟩)
    (fun stats => (stats.active, stats.openedTotal, stats.closedTotal, stats.directTotal,
      stats.holepunchAttempts, stats.pathsDirect, stats.pathsRelayed, ())) fun _ => rfl

def trafficStatsForm : WireForm TrafficStats :=
  ((cons "outBytes" (required .u64) <| cons "inBytes" (required .u64) nil).record
    (by simp)).map (fun (outBytes, inBytes, ()) => ⟨outBytes, inBytes⟩)
    (fun stats => (stats.outBytes, stats.inBytes, ())) fun _ => rfl

def relayHealthForm : WireForm RelayHealth :=
  ((cons "url" (required .string) <| cons "connected" (required .bool) <|
    cons "latencyMs" (defaulted optionalU64 none) <|
    cons "lastError" (defaulted optionalString none) nil).record (by simp)).map
    (fun (url, connected, latencyMs, lastError, ()) => ⟨url, connected, latencyMs, lastError⟩)
    (fun health => (health.url, health.connected, health.latencyMs, health.lastError, ()))
    fun _ => rfl

def relayStatsForm : WireForm RelayStats :=
  ((cons "relays" (required relayHealthForm.array) <|
    cons "preferred" (defaulted optionalString none) <|
    cons "udpV4" (required .bool) <| cons "udpV6" (required .bool) nil).record
    (by simp)).map (fun (relays, preferred, udpV4, udpV6, ()) => ⟨relays, preferred, udpV4, udpV6⟩)
    (fun stats => (stats.relays, stats.preferred, stats.udpV4, stats.udpV6, ())) fun _ => rfl

def warningsForm : WireForm Warnings :=
  ((cons "relayUnreachable" (required .bool) nil).record (by simp)).map
    (fun (relayUnreachable, ()) => ⟨relayUnreachable⟩)
    (fun warnings => (warnings.relayUnreachable, ())) fun _ => rfl

section Texts

variable (texts : WireTexts)

def seedReceiptForm : WireForm SeedReceipt :=
  ((cons "rid" (required (.text texts.rid)) <| cons "cid" (required (.text texts.cid)) <|
    cons "endpointId" (required (.text texts.endpoint)) <| cons "bytes" (required .u64) <|
    cons "wasNew" (required .bool) nil).record (by simp)).map
    (fun (rid, cid, endpointId, bytes, wasNew, ()) => ⟨rid, cid, endpointId, bytes, wasNew⟩)
    (fun receipt =>
      (receipt.rid, receipt.cid, receipt.endpointId, receipt.bytes, receipt.wasNew, ()))
    fun _ => rfl

def unseedReceiptForm : WireForm UnseedReceipt :=
  ((cons "rid" (required (.text texts.rid)) <| cons "cid" (required (.text texts.cid)) <|
    cons "wasRemoved" (required .bool) nil).record (by simp)).map
    (fun (rid, cid, wasRemoved, ()) => ⟨rid, cid, wasRemoved⟩)
    (fun receipt => (receipt.rid, receipt.cid, receipt.wasRemoved, ())) fun _ => rfl

def seededEntryForm : WireForm SeededEntry :=
  ((cons "cid" (required (.text texts.cid)) <| cons "bytes" (required .u64) <|
    cons "complete" (defaulted optionalBool none) <|
    cons "releases" (defaulted (WireForm.text texts.oid).array []) nil).record
    (by simp)).map
    (fun (cid, bytes, complete, releases, ()) => ⟨cid, bytes, complete, releases⟩)
    (fun entry => (entry.cid, entry.bytes, entry.complete, entry.releases, ())) fun _ => rfl

def exportReceiptForm : WireForm ExportReceipt :=
  ((cons "cid" (required (.text texts.cid)) <| cons "dest" (required .path) <|
    cons "bytes" (required .u64) nil).record (by simp)).map
    (fun (cid, dest, bytes, ()) => ⟨cid, dest, bytes⟩)
    (fun receipt => (receipt.cid, receipt.dest, receipt.bytes, ())) fun _ => rfl

def fetchReceiptForm : WireForm FetchReceipt :=
  ((cons "rid" (required (.text texts.rid)) <| cons "cid" (required (.text texts.cid)) <|
    cons "bytes" (required .u64) <| cons "fromCache" (required .bool) <|
    cons "seeded" (required .bool) <|
    cons "endpointId" (required (.text texts.endpoint)) nil).record (by simp)).map
    (fun (rid, cid, bytes, fromCache, seeded, endpointId, ()) =>
      ⟨rid, cid, bytes, fromCache, seeded, endpointId⟩)
    (fun receipt => (receipt.rid, receipt.cid, receipt.bytes, receipt.fromCache,
      receipt.seeded, receipt.endpointId, ())) fun _ => rfl

def downloadReceiptForm : WireForm DownloadReceipt :=
  ((cons "rid" (required (.text texts.rid)) <| cons "cid" (required (.text texts.cid)) <|
    cons "dest" (required .path) <| cons "bytes" (required .u64) <|
    cons "fromCache" (required .bool) <| cons "seeded" (required .bool) <|
    cons "endpointId" (required (.text texts.endpoint)) nil).record (by simp)).map
    (fun (rid, cid, dest, bytes, fromCache, seeded, endpointId, ()) =>
      ⟨rid, cid, dest, bytes, fromCache, seeded, endpointId⟩)
    (fun receipt => (receipt.rid, receipt.cid, receipt.dest, receipt.bytes, receipt.fromCache,
      receipt.seeded, receipt.endpointId, ())) fun _ => rfl

def pkarrStatsForm : WireForm PkarrStats :=
  ((cons "uri" (required .string) <|
    cons "relays" (required (WireForm.text texts.url).array) nil).record (by simp)).map
    (fun (uri, relays, ()) => ⟨uri, relays⟩) (fun stats => (stats.uri, stats.relays, ()))
    fun _ => rfl

def optionalPkarr : WireForm (Option PkarrStats) :=
  (pkarrStatsForm texts).option fun stats =>
    record_write_ne_null _ (by simp) (stats.uri, stats.relays, ())

def statusForm : WireForm Status :=
  ((cons "endpointId" (required (.text texts.endpoint)) <|
    cons "version" (defaulted optionalString none) <|
    cons "startedAtUnix" (required .i64) <| cons "seeded" (required seededStatsForm) <|
    cons "connections" (required connectionStatsForm) <|
    cons "traffic" (required trafficStatsForm) <| cons "relay" (required relayStatsForm) <|
    cons "pkarr" (defaulted (optionalPkarr texts) none) <|
    cons "warnings" (required warningsForm) nil).record (by simp)).map
    (fun (endpointId, version, startedAtUnix, seeded, connections, traffic, relay, pkarr,
        warnings, ()) =>
      ⟨endpointId, version, startedAtUnix, seeded, connections, traffic, relay, pkarr,
        warnings⟩)
    (fun status => (status.endpointId, status.version, status.startedAtUnix, status.seeded,
      status.connections, status.traffic, status.relay, status.pkarr, status.warnings, ()))
    fun _ => rfl

/-! ## Locations and progress -/

def fetchLocationForm : WireForm FetchLocation :=
  .keyedEnum 1
    (fun
      | .url url => ⟨"url", .text texts.url, url⟩
      | .iroh id => ⟨"iroh", .text texts.endpoint, id⟩)
    (fun
      | "url", content => ((WireForm.text texts.url).read content).map .url
      | "iroh", content => ((WireForm.text texts.endpoint).read content).map .iroh
      | _, _ => none)
    (by rintro (url | id) <;> exact le_rfl)
    (by rintro (url | id) content hread <;> exact congrArg (Option.map _) hread)

def downloadingFields : RecordForm (UInt64 × Option UInt64 × Unit) :=
  cons "offset" (required .u64) <| cons "total" (defaulted optionalU64 none) nil

def exportingFields : RecordForm (UInt64 × Option UInt64 × Option String × Unit) :=
  cons "offset" (required .u64) <| cons "total" (defaulted optionalU64 none) <|
    cons "entry" (defaulted optionalString none) nil

def endpointFields : RecordForm (EndpointId × Unit) :=
  cons "endpointId" (required (.text texts.endpoint)) nil

def fetchProgressForm : WireForm FetchProgress :=
  .taggedEnum "kind" 1
    (fun
      | .connecting => ⟨"connecting", nil, ()⟩
      | .tryingLocation id => ⟨"tryingLocation", endpointFields texts, (id, ())⟩
      | .locationFailed id => ⟨"locationFailed", endpointFields texts, (id, ())⟩
      | .downloading offset total => ⟨"downloading", downloadingFields, (offset, total, ())⟩
      | .exporting offset total entry =>
          ⟨"exporting", exportingFields, (offset, total, entry, ())⟩)
    (fun
      | "connecting", content => (nil.readContent content).map fun () => .connecting
      | "tryingLocation", content =>
          ((endpointFields texts).readContent content).map fun (id, ()) => .tryingLocation id
      | "locationFailed", content =>
          ((endpointFields texts).readContent content).map fun (id, ()) => .locationFailed id
      | "downloading", content =>
          (downloadingFields.readContent content).map fun (offset, total, ()) =>
            .downloading offset total
      | "exporting", content =>
          (exportingFields.readContent content).map fun (offset, total, entry, ()) =>
            .exporting offset total entry
      | _, _ => none)
    (by rintro (_ | id | id | ⟨offset, total⟩ | ⟨offset, total, entry⟩) <;>
      simp [endpointFields, downloadingFields, exportingFields])
    (by rintro (_ | id | id | ⟨offset, total⟩ | ⟨offset, total, entry⟩) <;> exact le_rfl)
    (by
      rintro (_ | id | id | ⟨offset, total⟩ | ⟨offset, total, entry⟩) content hread <;>
        exact congrArg (Option.map _) hread)

/-! ## Commands -/

def seedFields :
    RecordForm (RepoId × Oid × Cid × PathBuf × ArtifactKind × ImportMode × Unit) :=
  cons "rid" (required (.text texts.rid)) <| cons "release" (required (.text texts.oid)) <|
    cons "cid" (required (.text texts.cid)) <| cons "path" (required .path) <|
    cons "kind" (required artifactKindForm) <| cons "mode" (required importModeForm) nil

def unseedFields : RecordForm (RepoId × Option Oid × Cid × Unit) :=
  cons "rid" (required (.text texts.rid)) <|
    cons "release" (skipped (.text texts.oid) (write_text_ne_null texts.oid)) <|
    cons "cid" (required (.text texts.cid)) nil

def isSeedingFields : RecordForm (RepoId × Cid × Unit) :=
  cons "rid" (required (.text texts.rid)) <| cons "cid" (required (.text texts.cid)) nil

def listSeededFields : RecordForm (RepoId × Unit) :=
  cons "rid" (required (.text texts.rid)) nil

def hasFields : RecordForm (Cid × Unit) :=
  cons "cid" (required (.text texts.cid)) nil

def exportFields : RecordForm (Cid × PathBuf × Unit) :=
  cons "cid" (required (.text texts.cid)) <| cons "dest" (required .path) nil

def fetchFields : RecordForm (RepoId × Cid × List FetchLocation × Option Oid × Unit) :=
  cons "rid" (required (.text texts.rid)) <| cons "cid" (required (.text texts.cid)) <|
    cons "locations" (required (fetchLocationForm texts).array) <|
    cons "seed" (skipped (.text texts.oid) (write_text_ne_null texts.oid)) nil

def downloadFields :
    RecordForm (RepoId × Cid × List FetchLocation × PathBuf × Option Oid × Unit) :=
  cons "rid" (required (.text texts.rid)) <| cons "cid" (required (.text texts.cid)) <|
    cons "locations" (required (fetchLocationForm texts).array) <|
    cons "dest" (required .path) <|
    cons "seed" (skipped (.text texts.oid) (write_text_ne_null texts.oid)) nil

def commandVariant : Command → TaggedVariant
  | .alive => ⟨"alive", nil, ()⟩
  | .status => ⟨"status", nil, ()⟩
  | .seed rid release cid path kind mode =>
      ⟨"seed", seedFields texts, (rid, release, cid, path, kind, mode, ())⟩
  | .unseed rid release cid => ⟨"unseed", unseedFields texts, (rid, release, cid, ())⟩
  | .isSeeding rid cid => ⟨"isSeeding", isSeedingFields texts, (rid, cid, ())⟩
  | .listSeeded rid => ⟨"listSeeded", listSeededFields texts, (rid, ())⟩
  | .has cid => ⟨"has", hasFields texts, (cid, ())⟩
  | .export cid dest => ⟨"export", exportFields texts, (cid, dest, ())⟩
  | .fetch rid cid locations seed =>
      ⟨"fetch", fetchFields texts, (rid, cid, locations, seed, ())⟩
  | .download rid cid locations dest seed =>
      ⟨"download", downloadFields texts, (rid, cid, locations, dest, seed, ())⟩
  | .shutdown => ⟨"shutdown", nil, ()⟩

def readCommand : String → Json → Option Command
  | "alive", content => (nil.readContent content).map fun () => .alive
  | "status", content => (nil.readContent content).map fun () => .status
  | "seed", content =>
      ((seedFields texts).readContent content).map
        fun (rid, release, cid, path, kind, mode, ()) => .seed rid release cid path kind mode
  | "unseed", content =>
      ((unseedFields texts).readContent content).map fun (rid, release, cid, ()) =>
        .unseed rid release cid
  | "isSeeding", content =>
      ((isSeedingFields texts).readContent content).map fun (rid, cid, ()) =>
        .isSeeding rid cid
  | "listSeeded", content =>
      ((listSeededFields texts).readContent content).map fun (rid, ()) => .listSeeded rid
  | "has", content => ((hasFields texts).readContent content).map fun (cid, ()) => .has cid
  | "export", content =>
      ((exportFields texts).readContent content).map fun (cid, dest, ()) => .export cid dest
  | "fetch", content =>
      ((fetchFields texts).readContent content).map fun (rid, cid, locations, seed, ()) =>
        .fetch rid cid locations seed
  | "download", content =>
      ((downloadFields texts).readContent content).map
        fun (rid, cid, locations, dest, seed, ()) => .download rid cid locations dest seed
  | "shutdown", content => (nil.readContent content).map fun () => .shutdown
  | _, _ => none

def commandForm : WireForm Command :=
  .taggedEnum "command" 3 (commandVariant texts) (readCommand texts)
    (by
      intro cmd
      cases cmd <;> simp [commandVariant, seedFields, unseedFields, isSeedingFields,
        listSeededFields, hasFields, exportFields, fetchFields, downloadFields])
    (by
      intro cmd
      cases cmd <;> exact Nat.le_of_ble_eq_true rfl)
    (by
      intro cmd content hread
      cases cmd <;> exact congrArg (Option.map _) hread)

theorem objects_commandForm : (commandForm texts).Objects :=
  WireForm.objects_taggedEnum _ _ _

theorem bound_commandForm_le : (commandForm texts).bound ≤ Json.maxDepth :=
  Nat.le_of_ble_eq_true rfl

/-- Every path is UTF-8. -/
def PathsValid (paths : List PathBuf) : Prop :=
  ∀ path ∈ paths, ∃ text, Utf8.toStr path = some text

/-- The paths a command holds. -/
def Command.paths : Command → List PathBuf
  | .seed _ _ _ path _ _ => [path]
  | .export _ dest => [dest]
  | .download _ _ _ dest _ => [dest]
  | _ => []

@[simp]
theorem paths_commandForm (cmd : Command) : (commandForm texts).paths cmd = cmd.paths := by
  cases cmd with
  | unseed rid release cid => cases release <;> rfl
  | fetch rid cid locations seed =>
      have hlocations : (fetchLocationForm texts).array.paths locations = [] :=
        WireForm.paths_array_eq_nil (fun location => by cases location <;> rfl) locations
      cases seed <;> exact congrArg (· ++ []) hlocations
  | download rid cid locations dest seed =>
      have hlocations : (fetchLocationForm texts).array.paths locations = [] :=
        WireForm.paths_array_eq_nil (fun location => by cases location <;> rfl) locations
      cases seed <;> exact congrArg (· ++ [dest]) hlocations
  | _ => rfl

theorem hasText_rid (cmd : Command) :
    (commandVariant texts cmd).form.HasText "rid" texts.rid := by
  cases cmd with
  | alive => exact hasText_nil _ _
  | status => exact hasText_nil _ _
  | seed => exact hasText_cons (by simp)
  | unseed => exact hasText_cons (by simp)
  | isSeeding => exact hasText_cons (by simp)
  | listSeeded => exact hasText_cons (by simp)
  | has => exact hasText_cons_of_ne (by simp) (hasText_nil _ _)
  | «export» =>
      exact hasText_cons_of_ne (by simp) (hasText_cons_of_ne (by simp) (hasText_nil _ _))
  | fetch => exact hasText_cons (by simp)
  | download => exact hasText_cons (by simp)
  | shutdown => exact hasText_nil _ _

theorem hasText_cid (cmd : Command) :
    (commandVariant texts cmd).form.HasText "cid" texts.cid := by
  cases cmd with
  | alive => exact hasText_nil _ _
  | status => exact hasText_nil _ _
  | seed =>
      exact hasText_cons_of_ne (by simp) (hasText_cons_of_ne (by simp) (hasText_cons (by simp)))
  | unseed =>
      exact hasText_cons_of_ne (by simp) (hasText_cons_of_ne (by simp) (hasText_cons (by simp)))
  | isSeeding => exact hasText_cons_of_ne (by simp) (hasText_cons (by simp))
  | listSeeded => exact hasText_cons_of_ne (by simp) (hasText_nil _ _)
  | has => exact hasText_cons (by simp)
  | «export» => exact hasText_cons (by simp)
  | fetch => exact hasText_cons_of_ne (by simp) (hasText_cons (by simp))
  | download => exact hasText_cons_of_ne (by simp) (hasText_cons (by simp))
  | shutdown => exact hasText_nil _ _

/-! ## Replies -/

def commandResultForm {Payload : Type} (payload : WireForm Payload) :
    WireForm (CommandResult Payload) :=
  .keyedEnum (max payload.bound 1 + 1)
    (fun
      | .okay value => ⟨"okay", payload, value⟩
      | .error err => ⟨"error", commandErrorForm, err⟩)
    (fun
      | "okay", content => (payload.read content).map .okay
      | "error", content => (commandErrorForm.read content).map .error
      | _, _ => none)
    (by
      rintro (value | err)
      · exact Nat.succ_le_succ (le_max_left _ _)
      · exact Nat.succ_le_succ (le_max_right _ _))
    (by rintro (value | err) content hread <;> exact congrArg (Option.map _) hread)

def streamEventForm {Payload : Type} (payload : WireForm Payload) :
    WireForm (StreamEvent Payload) :=
  .keyedEnum (max payload.bound 1 + 1)
    (fun
      | .progress progress => ⟨"progress", fetchProgressForm texts, progress⟩
      | .okay value => ⟨"okay", payload, value⟩
      | .error err => ⟨"error", commandErrorForm, err⟩)
    (fun
      | "progress", content => ((fetchProgressForm texts).read content).map .progress
      | "okay", content => (payload.read content).map .okay
      | "error", content => (commandErrorForm.read content).map .error
      | _, _ => none)
    (by
      rintro (progress | value | err)
      · exact Nat.succ_le_succ (le_max_right _ _)
      · exact Nat.succ_le_succ (le_max_left _ _)
      · exact Nat.succ_le_succ (le_max_right _ _))
    (by rintro (progress | value | err) content hread <;>
      exact congrArg (Option.map _) hread)

section Envelopes

variable {Payload : Type} {payload : WireForm Payload}

theorem objects_commandResultForm : (commandResultForm payload).Objects :=
  WireForm.objects_keyedEnum _ _

theorem objects_streamEventForm : (streamEventForm texts payload).Objects :=
  WireForm.objects_keyedEnum _ _

theorem bound_commandResultForm_le (hbound : payload.bound < Json.maxDepth) :
    (commandResultForm payload).bound ≤ Json.maxDepth :=
  Nat.succ_le_of_lt (max_lt hbound (by decide))

theorem bound_streamEventForm_le (hbound : payload.bound < Json.maxDepth) :
    (streamEventForm texts payload).bound ≤ Json.maxDepth :=
  Nat.succ_le_of_lt (max_lt hbound (by decide))

def CommandResult.paths (paths : Payload → List PathBuf) : CommandResult Payload → List PathBuf
  | .okay value => paths value
  | .error _ => []

def StreamEvent.paths (paths : Payload → List PathBuf) : StreamEvent Payload → List PathBuf
  | .okay value => paths value
  | .progress _ => []
  | .error _ => []

@[simp]
theorem paths_commandResultForm (result : CommandResult Payload) :
    (commandResultForm payload).paths result = result.paths payload.paths := by
  cases result <;> rfl

theorem paths_fetchProgressForm (progress : FetchProgress) :
    (fetchProgressForm texts).paths progress = [] := by
  cases progress with
  | downloading offset total =>
      refine append_paths_eq_nil (fun _ => rfl) (append_paths_eq_nil ?_ fun _ => rfl) _
      exact WireForm.elim_paths_eq_nil fun _ => rfl
  | exporting offset total entry =>
      refine append_paths_eq_nil (fun _ => rfl)
        (append_paths_eq_nil ?_ (append_paths_eq_nil ?_ fun _ => rfl)) _
      · exact WireForm.elim_paths_eq_nil fun _ => rfl
      · exact WireForm.elim_paths_eq_nil fun _ => rfl
  | _ => rfl

@[simp]
theorem paths_streamEventForm (event : StreamEvent Payload) :
    (streamEventForm texts payload).paths event = event.paths payload.paths := by
  cases event with
  | progress progress => exact paths_fetchProgressForm texts progress
  | okay value => rfl
  | error err => rfl

end Envelopes

/-- What a command is answered with. -/
inductive Reply where
  | ack
  | status
  | seed
  | unseed
  | isSeeding
  | listSeeded
  | has
  | export
  | fetch
  | download

namespace Reply

abbrev Payload : Reply → Type
  | .ack => Unit
  | .status => Status
  | .seed => SeedReceipt
  | .unseed => UnseedReceipt
  | .isSeeding => Bool
  | .listSeeded => List SeededEntry
  | .has => HasResult
  | .export => ExportReceipt
  | .fetch => FetchReceipt
  | .download => DownloadReceipt

def form : (reply : Reply) → WireForm reply.Payload
  | .ack => .unit
  | .status => statusForm texts
  | .seed => seedReceiptForm texts
  | .unseed => unseedReceiptForm texts
  | .isSeeding => .bool
  | .listSeeded => (seededEntryForm texts).array
  | .has => hasResultForm
  | .export => exportReceiptForm texts
  | .fetch => fetchReceiptForm texts
  | .download => downloadReceiptForm texts

theorem bound_form_lt (reply : Reply) : (reply.form texts).bound < Json.maxDepth := by
  cases reply <;> exact Nat.le_of_ble_eq_true rfl

theorem paths_seededEntryForm (entry : SeededEntry) :
    (seededEntryForm texts).paths entry = [] := by
  refine append_paths_eq_nil (fun _ => rfl) (append_paths_eq_nil (fun _ => rfl)
    (append_paths_eq_nil ?_ (append_paths_eq_nil ?_ fun _ => rfl))) _
  · exact WireForm.elim_paths_eq_nil fun _ => rfl
  · exact WireForm.paths_array_eq_nil fun _ => rfl

theorem paths_relayHealthForm (health : RelayHealth) : relayHealthForm.paths health = [] := by
  refine append_paths_eq_nil (fun _ => rfl) (append_paths_eq_nil (fun _ => rfl)
    (append_paths_eq_nil ?_ (append_paths_eq_nil ?_ fun _ => rfl))) _
  · exact WireForm.elim_paths_eq_nil fun _ => rfl
  · exact WireForm.elim_paths_eq_nil fun _ => rfl

theorem paths_relayStatsForm (stats : RelayStats) : relayStatsForm.paths stats = [] := by
  refine append_paths_eq_nil ?_ (append_paths_eq_nil ?_
    (append_paths_eq_nil (fun _ => rfl) (append_paths_eq_nil (fun _ => rfl) fun _ => rfl))) _
  · exact WireForm.paths_array_eq_nil paths_relayHealthForm
  · exact WireForm.elim_paths_eq_nil fun _ => rfl

theorem paths_pkarrStatsForm (stats : PkarrStats) : (pkarrStatsForm texts).paths stats = [] :=
  append_paths_eq_nil (fun _ => rfl)
    (append_paths_eq_nil (WireForm.paths_array_eq_nil fun _ => rfl) fun _ => rfl) _

theorem paths_statusForm (status : Status) : (statusForm texts).paths status = [] := by
  refine append_paths_eq_nil (fun _ => rfl) (append_paths_eq_nil ?_
    (append_paths_eq_nil (fun _ => rfl) (append_paths_eq_nil (fun _ => rfl)
      (append_paths_eq_nil (fun _ => rfl) (append_paths_eq_nil (fun _ => rfl)
        (append_paths_eq_nil paths_relayStatsForm (append_paths_eq_nil ?_
          (append_paths_eq_nil (fun _ => rfl) fun _ => rfl)))))))) _
  · exact WireForm.elim_paths_eq_nil fun _ => rfl
  · exact WireForm.elim_paths_eq_nil (paths_pkarrStatsForm texts)

/-- The paths a reply holds. -/
def paths : (reply : Reply) → reply.Payload → List PathBuf
  | .export, receipt => [receipt.dest]
  | .download, receipt => [receipt.dest]
  | _, _ => []

@[simp]
theorem paths_form (reply : Reply) : (reply.form texts).paths = reply.paths := by
  funext payload
  cases reply with
  | status => exact paths_statusForm texts payload
  | listSeeded =>
      exact List.flatMap_eq_nil_iff.mpr fun entry _ => paths_seededEntryForm texts entry
  | _ => rfl

end Reply

end Texts

end RadicleArtifact.Core
