import RadicleArtifact.Cob.Reducer
import RadicleArtifact.Core.Text

/-!
# JSON forms of actions and releases

An action reaches the reducer as a JSON text of its own, which bounds how deep
its metadata value nests.  The cache stores a whole release as one text, and
there the same value sits four levels deeper.  A release read back from its text
is the release that was written, as long as the text is not too deep to read.
-/

namespace RadicleArtifact.Cob

open RadicleArtifact.Core
open RadicleArtifact.Library

/-! ## Actions -/

section Action

variable (texts : TextForms)

def readCreate (content : Json) : Option Action := do
  let fields ← content.asStruct ["oid", "tag"]
  let oid ← fields.required "oid" (JsonForm.text texts.oid).read
  let tag ← fields.defaulted "tag" (Json.asOption (JsonForm.text texts.oid).read) none
  return .create oid tag

def readRegisterArtifact (content : Json) : Option Action := do
  let fields ← content.asStruct ["cid", "name"]
  let cid ← fields.required "cid" (JsonForm.text texts.cid).read
  let name ← fields.required "name" JsonForm.string.read
  return .registerArtifact cid name

/-- The content of `AddLocation` and of `RemoveLocation`. -/
def readLocation (make : Cid → Url → Action) (content : Json) : Option Action := do
  let fields ← content.asStruct ["cid", "location"]
  let cid ← fields.required "cid" (JsonForm.text texts.cid).read
  let location ← fields.required "location" (JsonForm.text texts.url).read
  return make cid location

def readAttest (content : Json) : Option Action := do
  let fields ← content.asStruct ["cid"]
  let cid ← fields.required "cid" (JsonForm.text texts.cid).read
  return .attest cid

def readRedact (content : Json) : Option Action := do
  let fields ← content.asStruct ["cid", "reason"]
  let cid ← fields.required "cid" (JsonForm.text texts.cid).read
  let reason ← fields.required "reason" JsonForm.string.read
  return .redact cid reason

def readSetMetadata (content : Json) : Option Action := do
  let fields ← content.asStruct ["cid", "key", "value"]
  let cid ← fields.required "cid" (JsonForm.text texts.cid).read
  let key ← fields.required "key" JsonForm.string.read
  let value ← fields.required "value" JsonForm.value.read
  return .setMetadata cid key value

def readRemoveMetadata (content : Json) : Option Action := do
  let fields ← content.asStruct ["cid", "key"]
  let cid ← fields.required "cid" (JsonForm.text texts.cid).read
  let key ← fields.required "key" JsonForm.string.read
  return .removeMetadata cid key

/-- A field that is left out when there is no tag. -/
def tagMember (tag : Option Oid) : List (String × Json) :=
  (tag.map fun oid => ("tag", (JsonForm.text texts.oid).write oid)).toList

/-- The variant of an action and its content. -/
def writeAction : Action → String × List (String × Json)
  | .create oid tag =>
      ("Create", ("oid", (JsonForm.text texts.oid).write oid) :: tagMember texts tag)
  | .registerArtifact cid name =>
      ("AddArtifact", [("cid", (JsonForm.text texts.cid).write cid),
        ("name", JsonForm.string.write name)])
  | .addLocation cid location =>
      ("AddLocation", [("cid", (JsonForm.text texts.cid).write cid),
        ("location", (JsonForm.text texts.url).write location)])
  | .removeLocation cid location =>
      ("RemoveLocation", [("cid", (JsonForm.text texts.cid).write cid),
        ("location", (JsonForm.text texts.url).write location)])
  | .attest cid => ("Attest", [("cid", (JsonForm.text texts.cid).write cid)])
  | .redact cid reason =>
      ("Redact", [("cid", (JsonForm.text texts.cid).write cid),
        ("reason", JsonForm.string.write reason)])
  | .setMetadata cid key value =>
      ("SetMetadata", [("cid", (JsonForm.text texts.cid).write cid),
        ("key", JsonForm.string.write key), ("value", JsonForm.value.write value)])
  | .removeMetadata cid key =>
      ("RemoveMetadata", [("cid", (JsonForm.text texts.cid).write cid),
        ("key", JsonForm.string.write key)])

def readAction (variant : String) (content : Json) : Option Action :=
  if variant = "Create" then readCreate texts content
  else if variant = "AddArtifact" then readRegisterArtifact texts content
  else if variant = "AddLocation" then readLocation texts .addLocation content
  else if variant = "RemoveLocation" then readLocation texts .removeLocation content
  else if variant = "Attest" then readAttest texts content
  else if variant = "Redact" then readRedact texts content
  else if variant = "SetMetadata" then readSetMetadata texts content
  else if variant = "RemoveMetadata" then readRemoveMetadata texts content
  else none

theorem readAction_writeAction (action : Action) :
    readAction texts (writeAction texts action).1 (.object (writeAction texts action).2) =
      some action := by
  cases action with
  | create oid tag =>
      cases tag <;>
        simp [readAction, writeAction, readCreate, tagMember, Json.asStruct,
          Json.Fields.required, Json.Fields.defaulted, List.lookup, JsonForm.read_write,
          JsonForm.asOption_read_write_text]
  | _ =>
      simp [readAction, writeAction, readRegisterArtifact, readLocation, readAttest,
        readRedact, readSetMetadata, readRemoveMetadata, Json.asStruct,
        Json.Fields.required, List.lookup, JsonForm.read_write]

/-- The wire format of actions: an object with the variant as its only key. -/
def actionForm : JsonForm Action where
  write action := .object [((writeAction texts action).1, .object (writeAction texts action).2)]
  read
    | .object [(variant, content)] => readAction texts variant content
    | _ => none
  read_write := readAction_writeAction texts

/-- Some text decodes to the action. -/
def Action.Decoded (action : Action) : Prop :=
  ∃ text, Json.fromText (actionForm texts).read text = some action

/-- An action whose metadata value nests at most 125 deep is decoded from its text. -/
theorem Action.decoded_of_depth_le {action : Action}
    (hdepth : ∀ cid key value, action = .setMetadata cid key value →
      value.json.depth ≤ 125) : action.Decoded texts := by
  refine ⟨(actionForm texts).write action, Json.fromText_eq_some_iff.mpr
    ⟨?_, (actionForm texts).read_write action⟩⟩
  rw [actionForm, Json.maxDepth, Json.depth_object_le_succ_iff, List.forall_mem_singleton,
    Json.depth_object_le_succ_iff]
  cases action with
  | create oid tag => cases tag <;> simp [writeAction, tagMember]
  | setMetadata cid key value =>
      simpa [writeAction, JsonForm.value] using hdepth cid key value rfl
  | _ => simp [writeAction]

/-- The release is the replay of actions that were each decoded from a text. -/
def Release.Reached (release : Release) : Prop :=
  ∃ commit root ops, Release.replay commit root ops = .ok release ∧
    ∀ op ∈ root :: ops, ∀ action ∈ op.actions, action.Decoded texts

end Action

/-! ## Releases -/

/-- Milliseconds, as an unsigned integer. -/
def timestampForm : JsonForm Timestamp where
  write timestamp := .number (.posInt (UInt64.ofNat timestamp.val))
  read json := json.asU64.map fun value => ⟨value.toNat, value.toNat_lt⟩
  read_write timestamp := by
    simp [Json.asU64]

/-- An enum with the variant as key, or as a string when it carries nothing. -/
def metadataWriteForm : JsonForm MetadataWrite where
  write
    | .set value => .object [("Set", JsonForm.value.write value)]
    | .removed => .string "Removed"
  read
    | .string "Removed" | .object [("Removed", .null)] => some .removed
    | .object [("Set", content)] => (JsonForm.value.read content).map .set
    | _ => none
  read_write
    | .set value => by
        show (JsonForm.value.read (JsonForm.value.write value)).map _ = _
        rw [JsonForm.value.read_write, Option.map_some]
    | .removed => rfl

section Release

variable (texts : TextForms)

def locationsForm : JsonForm (BTreeMap Did (BTreeSet Url)) :=
  (JsonForm.text texts.url).btreeSet.btreeMap texts.did

def attestationsForm : JsonForm (BTreeSet Did) :=
  (JsonForm.text texts.did).btreeSet

def redactionsForm : JsonForm (BTreeMap Did String) :=
  JsonForm.string.btreeMap texts.did

def metadataForm : JsonForm (BTreeMap String (IndexMap Did MetadataWrite)) :=
  (metadataWriteForm.indexMap texts.did).btreeMap stringForm

/-- Metadata is left out when there is none. -/
def metadataMember (metadata : BTreeMap String (IndexMap Did MetadataWrite)) :
    List (String × Json) :=
  if metadata.isEmpty then [] else [("metadata", (metadataForm texts).write metadata)]

def artifactForm : JsonForm Artifact where
  write artifact := .object <|
    [("author", (JsonForm.text texts.did).write artifact.author),
      ("name", JsonForm.string.write artifact.name),
      ("locations", (locationsForm texts).write artifact.locations),
      ("attestations", (attestationsForm texts).write artifact.attestations),
      ("redactions", (redactionsForm texts).write artifact.redactions)] ++
    metadataMember texts artifact.metadata
  read json := do
    let fields ← json.asStruct
      ["author", "name", "locations", "attestations", "redactions", "metadata"]
    let author ← fields.required "author" (JsonForm.text texts.did).read
    let name ← fields.required "name" JsonForm.string.read
    let locations ← fields.required "locations" (locationsForm texts).read
    let attestations ← fields.defaulted "attestations" (attestationsForm texts).read ∅
    let redactions ← fields.defaulted "redactions" (redactionsForm texts).read ∅
    let metadata ← fields.defaulted "metadata" (metadataForm texts).read ∅
    return ⟨author, name, locations, attestations, redactions, metadata⟩
  read_write artifact := by
    obtain ⟨author, name, locations, attestations, redactions, metadata⟩ := artifact
    by_cases hempty : metadata.isEmpty
    · obtain rfl := Std.ExtTreeMap.isEmpty_iff.mp hempty
      simp [metadataMember, Json.asStruct, Json.Fields.required, Json.Fields.defaulted,
        List.lookup, JsonForm.read_write]
    · simp [metadataMember, hempty, Json.asStruct, Json.Fields.required,
        Json.Fields.defaulted, List.lookup, JsonForm.read_write]

def artifactsForm : JsonForm (IndexMap Cid Artifact) :=
  (artifactForm texts).indexMap texts.cid

/-- The text the cache stores for a release. -/
def releaseForm : JsonForm Release where
  write release := .object <|
    ("oid", (JsonForm.text texts.oid).write release.oid) :: tagMember texts release.tag ++
    [("creator", (JsonForm.text texts.did).write release.creator),
      ("artifacts", (artifactsForm texts).write release.artifacts),
      ("timestamp", timestampForm.write release.timestamp)]
  read json := do
    let fields ← json.asStruct ["oid", "tag", "creator", "artifacts", "timestamp"]
    let oid ← fields.required "oid" (JsonForm.text texts.oid).read
    let tag ← fields.defaulted "tag" (Json.asOption (JsonForm.text texts.oid).read) none
    let creator ← fields.required "creator" (JsonForm.text texts.did).read
    let artifacts ← fields.required "artifacts" (artifactsForm texts).read
    let timestamp ← fields.required "timestamp" timestampForm.read
    return ⟨oid, tag, creator, artifacts, timestamp⟩
  read_write release := by
    obtain ⟨oid, tag, creator, artifacts, timestamp⟩ := release
    cases tag with
    | none =>
        simp [tagMember, Json.asStruct, Json.Fields.required, Json.Fields.defaulted,
          List.lookup, JsonForm.read_write]
    | some tag =>
        simp [tagMember, Json.asStruct, Json.Fields.required, Json.Fields.defaulted,
          List.lookup, JsonForm.read_write, JsonForm.asOption_read_write_text]

/-! ## How deep the stored text nests -/

variable {texts}

theorem depth_metadataWrite_le_succ_iff {write : MetadataWrite} {bound : ℕ} :
    (metadataWriteForm.write write).depth ≤ bound + 1 ↔
      ∀ value, write = .set value → value.json.depth ≤ bound := by
  cases write with
  | set value =>
      rw [metadataWriteForm, Json.depth_object_le_succ_iff]
      simp [JsonForm.value]
  | removed => simp [metadataWriteForm]

theorem depth_metadata_le_iff {metadata : BTreeMap String (IndexMap Did MetadataWrite)}
    {bound : ℕ} :
    ((metadataForm texts).write metadata).depth ≤ bound + 3 ↔
      ∀ (key : String) (writes : IndexMap Did MetadataWrite), metadata[key]? = some writes →
        ∀ did value, (did, .set value) ∈ writes.entries → value.json.depth ≤ bound := by
  rw [metadataForm, JsonForm.depth_btreeMap_le_succ_iff]
  simp only [JsonForm.depth_indexMap_le_succ_iff, depth_metadataWrite_le_succ_iff]
  refine forall₃_congr fun key writes _ => ⟨fun hdepth did value hwrite => ?_,
    fun hdepth write hwrite value hvalue => ?_⟩
  · exact hdepth (did, .set value) hwrite value rfl
  · refine hdepth write.1 value ?_
    rwa [← hvalue]

/-- Apart from its metadata, an artifact nests three levels deep. -/
theorem depth_artifact_le_iff {artifact : Artifact} {bound : ℕ} :
    ((artifactForm texts).write artifact).depth ≤ bound + 4 ↔
      ∀ key did value, (did, .set value) ∈ artifact.metadataWrites key →
        value.json.depth ≤ bound := by
  have hlocations : ((locationsForm texts).write artifact.locations).depth ≤ bound + 3 :=
    JsonForm.depth_btreeMap_le_succ_iff.mpr fun did urls _ =>
      JsonForm.depth_btreeSet_le_succ fun url => by simp
  have hattestations :
      ((attestationsForm texts).write artifact.attestations).depth ≤ bound + 3 :=
    JsonForm.depth_btreeSet_le_succ fun did => by simp
  have hredactions : ((redactionsForm texts).write artifact.redactions).depth ≤ bound + 3 :=
    JsonForm.depth_btreeMap_le_succ_iff.mpr fun did reason _ => by simp
  have hmetadata : (∀ entry ∈ metadataMember texts artifact.metadata,
      entry.2.depth ≤ bound + 3) ↔
        ((metadataForm texts).write artifact.metadata).depth ≤ bound + 3 := by
    rw [metadataMember]
    split
    · rename_i hempty
      rw [depth_metadata_le_iff]
      simp [Std.ExtTreeMap.isEmpty_iff.mp hempty]
    · simp
  rw [artifactForm, Json.depth_object_le_succ_iff, List.forall_mem_append, hmetadata,
    depth_metadata_le_iff]
  simp only [List.forall_mem_cons, List.not_mem_nil, JsonForm.depth_text,
    JsonForm.depth_string, Nat.zero_le, hlocations, hattestations, hredactions,
    Artifact.mem_metadataWrites_iff]
  constructor
  · rintro ⟨-, hwrites⟩ key did value ⟨writes, hkey, hmem⟩
    exact hwrites key writes hkey did value hmem
  · refine fun hwrites => ⟨by simp, fun key writes hkey did value hmem => ?_⟩
    exact hwrites key did value ⟨writes, hkey, hmem⟩

/-- In the text of a release, a metadata value sits six levels deep. -/
theorem depth_release_le_iff {release : Release} {bound : ℕ} :
    ((releaseForm texts).write release).depth ≤ bound + 6 ↔
      ∀ value, release.HoldsValue value → value.json.depth ≤ bound := by
  have htag : ∀ entry ∈ tagMember texts release.tag, entry.2.depth ≤ bound + 5 := by
    cases release.tag <;> simp [tagMember]
  have htimestamp : (timestampForm.write release.timestamp).depth ≤ bound + 5 := by
    rw [timestampForm, Json.depth_number]
    exact Nat.zero_le _
  rw [releaseForm, Json.depth_object_le_succ_iff, List.forall_mem_append,
    List.forall_mem_cons]
  simp only [List.forall_mem_cons, List.not_mem_nil, JsonForm.depth_text, htimestamp,
    artifactsForm, JsonForm.depth_indexMap_le_succ_iff, depth_artifact_le_iff, Nat.zero_le]
  constructor
  · rintro ⟨-, -, hartifacts, -⟩ value ⟨cid, artifact, key, did, hartifact, hwrite⟩
    exact hartifacts (cid, artifact) (IndexMap.get?_eq_some_iff_mem.mp hartifact) key did
      value hwrite
  · refine fun hvalues => ⟨⟨trivial, htag⟩, trivial, fun entry hentry key did value hwrite => ?_,
      by simp⟩
    exact hvalues value ⟨entry.1, entry.2, key, did,
      IndexMap.get?_eq_some_iff_mem.mpr hentry, hwrite⟩

/-- Metadata values may nest this deep in a release that is read back. -/
def maxValueDepth : ℕ := 121

/-- No metadata value of the release is too deep for its stored text. -/
def Release.Readable (release : Release) : Prop :=
  ∀ value, release.HoldsValue value → value.json.depth ≤ maxValueDepth

theorem depth_release_le_maxDepth_iff {release : Release} :
    ((releaseForm texts).write release).depth ≤ Json.maxDepth ↔ release.Readable :=
  depth_release_le_iff

/-- A stored release reads back when its metadata values are not too deep. -/
theorem fromText_release_of_readable {release : Release} (hreadable : release.Readable) :
    Json.fromText (releaseForm texts).read ((releaseForm texts).write release) =
      some release := by
  rw [JsonForm.fromText_write, if_pos (depth_release_le_maxDepth_iff.mpr hreadable)]

theorem fromText_release_of_not_readable {release : Release}
    (hreadable : ¬ release.Readable) :
    Json.fromText (releaseForm texts).read ((releaseForm texts).write release) = none := by
  rw [JsonForm.fromText_write, if_neg (mt depth_release_le_maxDepth_iff.mp hreadable)]

end Release

end RadicleArtifact.Cob
