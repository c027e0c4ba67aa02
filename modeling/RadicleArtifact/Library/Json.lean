import RadicleArtifact.Library.IndexMap

/-!
# JSON documents

A JSON text is represented by its parse tree: the members of an object stand in
the order the text has them, duplicates included.  Three notions matter to a
program that stores such texts: how deeply they nest, because parsers bound the
nesting they accept, the value a parser builds from a text, which keeps each
object key once, and looking up the members of an object.
-/

namespace RadicleArtifact.Library

/-- A JSON number: an unsigned or negative integer, or the bits of a double. -/
inductive Number where
  | posInt (value : UInt64)
  | negInt (value : Int64)
  | float (bits : UInt64)
  deriving DecidableEq

inductive Json where
  | null
  | bool (value : Bool)
  | number (value : Number)
  | string (text : String)
  | array (items : List Json)
  | object (members : List (String × Json))

namespace Json

mutual

/-- How many arrays and objects are open at the deepest point of a text. -/
def depth : Json → ℕ
  | .null | .bool _ | .number _ | .string _ => 0
  | .array items => depthItems items + 1
  | .object members => depthMembers members + 1

def depthItems : List Json → ℕ
  | [] => 0
  | item :: items => max item.depth (depthItems items)

def depthMembers : List (String × Json) → ℕ
  | [] => 0
  | (_, value) :: members => max value.depth (depthMembers members)

end

@[simp]
theorem depth_string (text : String) : (string text).depth = 0 := by
  simp [depth]

@[simp]
theorem depth_number (value : Number) : (number value).depth = 0 := by
  simp [depth]

theorem depthItems_le_iff {items : List Json} {bound : ℕ} :
    depthItems items ≤ bound ↔ ∀ item ∈ items, item.depth ≤ bound := by
  induction items with
  | nil => simp [depthItems]
  | cons item items ih => simp [depthItems, ih]

theorem depthMembers_le_iff {members : List (String × Json)} {bound : ℕ} :
    depthMembers members ≤ bound ↔ ∀ entry ∈ members, entry.2.depth ≤ bound := by
  induction members with
  | nil => simp [depthMembers]
  | cons entry members ih =>
      obtain ⟨key, value⟩ := entry
      simp [depthMembers, ih]

theorem depth_array_le_succ_iff {items : List Json} {bound : ℕ} :
    (array items).depth ≤ bound + 1 ↔ ∀ item ∈ items, item.depth ≤ bound := by
  rw [depth, Nat.add_le_add_iff_right, depthItems_le_iff]

theorem depth_object_le_succ_iff {members : List (String × Json)} {bound : ℕ} :
    (object members).depth ≤ bound + 1 ↔
      ∀ entry ∈ members, entry.2.depth ≤ bound := by
  rw [depth, Nat.add_le_add_iff_right, depthMembers_le_iff]

mutual

/-- The value a parser builds from a text: an object keeps each key once, at
the place of its first occurrence and with the value of its last. -/
def normalize : Json → Json
  | .null => .null
  | .bool value => .bool value
  | .number value => .number value
  | .string text => .string text
  | .array items => .array (normalizeItems items)
  | .object members => .object (IndexMap.collect (normalizeMembers members)).entries

def normalizeItems : List Json → List Json
  | [] => []
  | item :: items => item.normalize :: normalizeItems items

def normalizeMembers : List (String × Json) → List (String × Json)
  | [] => []
  | (key, value) :: members => (key, value.normalize) :: normalizeMembers members

end

mutual

/-- Every object in the document has distinct keys. -/
def Normal : Json → Prop
  | .null | .bool _ | .number _ | .string _ => True
  | .array items => NormalItems items
  | .object members => (members.map Prod.fst).Nodup ∧ NormalMembers members

def NormalItems : List Json → Prop
  | [] => True
  | item :: items => item.Normal ∧ NormalItems items

def NormalMembers : List (String × Json) → Prop
  | [] => True
  | (_, value) :: members => value.Normal ∧ NormalMembers members

end

theorem normalMembers_iff {members : List (String × Json)} :
    NormalMembers members ↔ ∀ entry ∈ members, entry.2.Normal := by
  induction members with
  | nil => simp [NormalMembers]
  | cons entry members ih =>
      obtain ⟨key, value⟩ := entry
      simp [NormalMembers, ih]

mutual

theorem normal_normalize : (document : Json) → document.normalize.Normal
  | .null | .bool _ | .number _ | .string _ => by simp [normalize, Normal]
  | .array items => by
      rw [normalize, Normal]
      exact normalItems_normalizeItems items
  | .object members => by
      rw [normalize, Normal, normalMembers_iff]
      refine ⟨IndexMap.nodup_keys _, fun entry hentry => ?_⟩
      exact normalMembers_iff.mp (normalMembers_normalizeMembers members) entry
        (IndexMap.mem_of_mem_collect hentry)

theorem normalItems_normalizeItems :
    (items : List Json) → NormalItems (normalizeItems items)
  | [] => trivial
  | item :: items => ⟨normal_normalize item, normalItems_normalizeItems items⟩

theorem normalMembers_normalizeMembers :
    (members : List (String × Json)) → NormalMembers (normalizeMembers members)
  | [] => trivial
  | (_, value) :: members =>
      ⟨normal_normalize value, normalMembers_normalizeMembers members⟩

end

mutual

/-- Reading back a document with distinct keys changes nothing. -/
theorem normalize_eq_of_normal :
    (document : Json) → document.Normal → document.normalize = document
  | .null, _ | .bool _, _ | .number _, _ | .string _, _ => by simp [normalize]
  | .array items, hnormal => by
      rw [normalize, normalizeItems_eq_of_normal items hnormal]
  | .object members, hnormal => by
      rw [Normal] at hnormal
      rw [normalize, normalizeMembers_eq_of_normal members hnormal.2,
        IndexMap.entries_collect hnormal.1]

theorem normalizeItems_eq_of_normal :
    (items : List Json) → NormalItems items → normalizeItems items = items
  | [], _ => rfl
  | item :: items, hnormal => by
      rw [normalizeItems, normalize_eq_of_normal item hnormal.1,
        normalizeItems_eq_of_normal items hnormal.2]

theorem normalizeMembers_eq_of_normal :
    (members : List (String × Json)) → NormalMembers members →
      normalizeMembers members = members
  | [], _ => rfl
  | (key, value) :: members, hnormal => by
      rw [normalizeMembers, normalize_eq_of_normal value hnormal.1,
        normalizeMembers_eq_of_normal members hnormal.2]

end

/-- An unsigned integer, as the parser classifies numbers. -/
def asU64 : Json → Option UInt64
  | .number (.posInt value) => some value
  | _ => none

end Json

/-- A document in memory: every object keeps each key once. -/
structure JsonValue where
  json : Json
  normal : json.Normal

namespace JsonValue

@[ext]
theorem ext {left right : JsonValue} (hjson : left.json = right.json) : left = right := by
  cases left
  cases right
  subst hjson
  rfl

/-- The value a parser builds from a text. -/
def parse (text : Json) : JsonValue where
  json := text.normalize
  normal := text.normal_normalize

@[simp]
theorem parse_json (value : JsonValue) : parse value.json = value :=
  ext (Json.normalize_eq_of_normal value.json value.normal)

def null : JsonValue :=
  parse .null

def string (text : String) : JsonValue :=
  parse (.string text)

/-- `Value::as_u64` -/
def asU64 (value : JsonValue) : Option UInt64 :=
  value.json.asU64

end JsonValue

end RadicleArtifact.Library
