import RadicleArtifact.Library.Json

/-!
# Reading and writing JSON

The forms that derived serializers are made of: texts, sequences, maps and
structs with named fields.  A form carries the proof that what it writes reads
back, so forms built from forms need no new argument.  The depth lemmas say how
much nesting each form adds.
-/

namespace RadicleArtifact.Library

/-- A text form that can be parsed back. -/
structure TextForm (Value : Type) where
  print : Value → String
  parse : String → Option Value
  parse_print : ∀ value, parse (print value) = some value

/-- Printing that can be undone gives different texts to different values. -/
theorem TextForm.print_injective {Value : Type} (form : TextForm Value) :
    Function.Injective form.print := by
  intro left right heq
  have hparsed := form.parse_print left
  rw [heq, form.parse_print right] at hparsed
  exact (Option.some.inj hparsed).symm

/-- Texts that tell values apart can be parsed. -/
noncomputable def TextForm.ofInjective {Value : Type} (print : Value → String)
    (hinjective : Function.Injective print) : TextForm Value where
  print := print
  parse := Function.partialInv print
  parse_print := Function.partialInv_left hinjective

section Sample

variable {Value : Type} [DecidableEq Value] [Countable Value]

/-- Print one value as given, and any other as a row of hashes. -/
noncomputable def printSample (sample : Value) (text : String) (value : Value) : String :=
  if value = sample then text
  else String.ofList (List.replicate ((exists_injective_nat Value).choose value + 1) '#')

theorem printSample_injective (sample : Value) {text : String} (htext : '#' ∉ text.toList) :
    Function.Injective (printSample sample text) := by
  have hnumber := (exists_injective_nat Value).choose_spec
  have hrow : ∀ value : Value, text ≠ String.ofList
      (List.replicate ((exists_injective_nat Value).choose value + 1) '#') := by
    rintro value rfl
    simp at htext
  intro left right heq
  rw [printSample, printSample] at heq
  split at heq <;> split at heq
  · simp_all
  · exact absurd heq (hrow right)
  · exact absurd heq.symm (hrow left)
  · have hlength := congrArg (fun row => row.toList.length) heq
    exact hnumber (by simpa using hlength)

/-- A text form with a given text for one value. -/
noncomputable def TextForm.sample (sample : Value) (text : String)
    (htext : '#' ∉ text.toList) : TextForm Value :=
  .ofInjective (printSample sample text) (printSample_injective sample htext)

end Sample

/-- A JSON form that can be read back. -/
structure JsonForm (Value : Type) where
  write : Value → Json
  read : Json → Option Value
  read_write : ∀ value, read (write value) = some value

namespace Json

variable {Value : Type}

def asString : Json → Option String
  | .string text => some text
  | _ => none

/-- An absent value reads from `null`. -/
def asOption (read : Json → Option Value) : Json → Option (Option Value)
  | .null => some none
  | json => (read json).map some

/-- The fields of a struct, by name. -/
abbrev Fields := String → Option Json

/-- Read a struct.  An object gives its fields by name, ignores unknown ones and
repeats none; an array gives them by position. -/
def asStruct (names : List String) : Json → Option Fields
  | .object members =>
      if names.all fun name => (members.map Prod.fst).count name ≤ 1 then
        some fun name => members.lookup name
      else none
  | .array items =>
      if items.length ≤ names.length then some fun name => items[names.idxOf name]?
      else none
  | _ => none

namespace Fields

def required (fields : Fields) (name : String) (read : Json → Option Value) :
    Option Value :=
  (fields name).bind read

/-- A field with a default. -/
def defaulted (fields : Fields) (name : String) (read : Json → Option Value)
    (value : Value) : Option Value :=
  (fields name).elim (some value) read

end Fields

/-- The parser accepts at most this many nested arrays and objects. -/
def maxDepth : ℕ := 127

/-- `from_str`: read a text, unless it nests too deeply. -/
def fromText (read : Json → Option Value) (text : Json) : Option Value :=
  if text.depth ≤ maxDepth then read text else none

theorem fromText_eq_some_iff {read : Json → Option Value} {text : Json} {value : Value} :
    fromText read text = some value ↔ text.depth ≤ maxDepth ∧ read text = some value := by
  rw [fromText]
  split
  · rename_i hdepth
    simp [hdepth]
  · rename_i hdepth
    simp [hdepth]

end Json

namespace JsonForm

variable {Key Value : Type}

/-- A written text reads back exactly when it is not too deep for the parser. -/
theorem fromText_write (form : JsonForm Value) (value : Value) :
    Json.fromText form.read (form.write value) =
      if (form.write value).depth ≤ Json.maxDepth then some value else none := by
  rw [Json.fromText, form.read_write]

def string : JsonForm String where
  write := .string
  read := Json.asString
  read_write _ := rfl

/-- A JSON document inside another. -/
def value : JsonForm JsonValue where
  write := JsonValue.json
  read json := some (JsonValue.parse json)
  read_write value := by rw [JsonValue.parse_json]

/-- A value with a text form, as a string. -/
def text (form : TextForm Value) : JsonForm Value where
  write value := .string (form.print value)
  read json := json.asString.bind form.parse
  read_write := form.parse_print

/-- A written text is not `null`. -/
theorem asOption_read_write_text (form : TextForm Value) (value : Value) :
    Json.asOption (text form).read ((text form).write value) = some (some value) :=
  calc
    _ = ((text form).read ((text form).write value)).map some := rfl
    _ = some (some value) := by rw [read_write, Option.map_some]

/-- Reading back each item of a written list. -/
theorem mapM_read_map_write (form : JsonForm Value) (items : List Value) :
    (items.map form.write).mapM form.read = some items := by
  induction items with
  | nil => rfl
  | cons item items ih =>
      rw [List.map_cons, List.mapM_cons, form.read_write, ih]
      rfl

def array (form : JsonForm Value) : JsonForm (List Value) where
  write items := .array (items.map form.write)
  read
    | .array items => items.mapM form.read
    | _ => none
  read_write := form.mapM_read_map_write

/-- One member of an object that is read as a map. -/
def readMember (key : TextForm Key) (form : JsonForm Value) (member : String × Json) :
    Option (Key × Value) := do
  let found ← key.parse member.1
  let value ← form.read member.2
  return (found, value)

theorem mapM_readMember_map (key : TextForm Key) (form : JsonForm Value)
    (entries : List (Key × Value)) :
    (entries.map fun entry => (key.print entry.1, form.write entry.2)).mapM
        (form.readMember key) = some entries := by
  induction entries with
  | nil => rfl
  | cons entry entries ih =>
      rw [List.map_cons, List.mapM_cons, readMember, key.parse_print, form.read_write, ih]
      rfl

/-- The entries of a map, in the order of the text. -/
def entries (key : TextForm Key) (form : JsonForm Value) : JsonForm (List (Key × Value)) where
  write entries := .object (entries.map fun entry => (key.print entry.1, form.write entry.2))
  read
    | .object members => members.mapM (form.readMember key)
    | _ => none
  read_write := form.mapM_readMember_map key

/-- An insertion-ordered map: a later entry for a key replaces the value. -/
def indexMap [DecidableEq Key] (key : TextForm Key) (form : JsonForm Value) :
    JsonForm (IndexMap Key Value) where
  write map := (form.entries key).write map.entries
  read json := ((form.entries key).read json).map IndexMap.collect
  read_write map := by
    rw [(form.entries key).read_write, Option.map_some, IndexMap.collect_entries]

def btreeMap [LinearOrder Key] (key : TextForm Key) (form : JsonForm Value) :
    JsonForm (BTreeMap Key Value) where
  write map := (form.entries key).write map.toList
  read json := ((form.entries key).read json).map BTreeMap.collect
  read_write map := by
    rw [(form.entries key).read_write, Option.map_some, BTreeMap.collect_toList]

def btreeSet [LinearOrder Key] (form : JsonForm Key) : JsonForm (BTreeSet Key) where
  write set := form.array.write set.toList
  read json := (form.array.read json).map BTreeSet.collect
  read_write set := by
    rw [form.array.read_write, Option.map_some, BTreeSet.collect_toList]

/-! ## How deep the forms nest -/

@[simp]
theorem depth_string (text : String) : (string.write text).depth = 0 :=
  Json.depth_string text

@[simp]
theorem depth_text (form : TextForm Value) (value : Value) :
    ((text form).write value).depth = 0 :=
  Json.depth_string _

theorem depth_array_le_succ_iff {form : JsonForm Value} {items : List Value} {bound : ℕ} :
    (form.array.write items).depth ≤ bound + 1 ↔
      ∀ item ∈ items, (form.write item).depth ≤ bound := by
  rw [array, Json.depth_array_le_succ_iff, List.forall_mem_map]

theorem depth_entries_le_succ_iff {key : TextForm Key} {form : JsonForm Value}
    {items : List (Key × Value)} {bound : ℕ} :
    ((form.entries key).write items).depth ≤ bound + 1 ↔
      ∀ entry ∈ items, (form.write entry.2).depth ≤ bound := by
  rw [entries, Json.depth_object_le_succ_iff, List.forall_mem_map]

theorem depth_indexMap_le_succ_iff [DecidableEq Key] {key : TextForm Key}
    {form : JsonForm Value} {map : IndexMap Key Value} {bound : ℕ} :
    ((form.indexMap key).write map).depth ≤ bound + 1 ↔
      ∀ entry ∈ map.entries, (form.write entry.2).depth ≤ bound :=
  depth_entries_le_succ_iff

theorem depth_btreeMap_le_succ_iff [LinearOrder Key] {key : TextForm Key}
    {form : JsonForm Value} {map : BTreeMap Key Value} {bound : ℕ} :
    ((form.btreeMap key).write map).depth ≤ bound + 1 ↔
      ∀ (found : Key) (value : Value), map[found]? = some value →
        (form.write value).depth ≤ bound := by
  rw [btreeMap, depth_entries_le_succ_iff, Prod.forall]
  simp only [BTreeMap.mem_toList]

theorem depth_btreeSet_le_succ [LinearOrder Key] {form : JsonForm Key} {set : BTreeSet Key}
    {bound : ℕ} (hdepth : ∀ item, (form.write item).depth ≤ bound) :
    (form.btreeSet.write set).depth ≤ bound + 1 :=
  depth_array_le_succ_iff.mpr fun item _ => hdepth item

end JsonForm

end RadicleArtifact.Library
