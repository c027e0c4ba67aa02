import RadicleArtifact.Library.Fallible
import RadicleArtifact.Library.JsonText
import RadicleArtifact.Library.Lines
import RadicleArtifact.Library.Serde

/-!
# Values on the wire

A wire form writes values as shallow JSON documents without doubles, so their text
is one line that reads back.  Writing fails only for a path that is not UTF-8.
Forms of records are put together field by field.
-/

namespace RadicleArtifact.Library

/-! ## Scalars and enumerations -/

namespace JsonForm

variable {Value : Type}

def bool : JsonForm Bool where
  write := .bool
  read
    | .bool value => some value
    | _ => none
  read_write _ := rfl

def unit : JsonForm Unit where
  write _ := .null
  read
    | .null => some ()
    | _ => none
  read_write _ := rfl

def u64 : JsonForm UInt64 where
  write value := .number (.posInt value)
  read := Json.asU64
  read_write _ := rfl

def u32 : JsonForm UInt32 where
  write value := .number (.posInt value.toUInt64)
  read json := json.asU64.bind fun value =>
    if value.toNat < 2 ^ 32 then some value.toUInt32 else none
  read_write value := by
    simp [Json.asU64, value.toNat_lt]

def i64 : JsonForm Int64 where
  write value :=
    .number (if value.toInt < 0 then .negInt value else .posInt (UInt64.ofNat value.toInt.toNat))
  read
    | .number (.negInt value) => some value
    | .number (.posInt value) =>
        if value.toNat < 2 ^ 63 then some (Int64.ofInt value.toNat) else none
    | _ => none
  read_write value := by
    by_cases hnegative : value.toInt < 0
    · simp only [if_pos hnegative]
    · have hhigh : value.toInt < 2 ^ 63 := value.toInt_lt
      have hnat : value.toInt.toNat % 2 ^ 64 = value.toInt.toNat := Nat.mod_eq_of_lt (by omega)
      have hvalue : ((value.toInt.toNat : ℕ) : ℤ) = value.toInt := by omega
      simp only [if_neg hnegative, UInt64.toNat_ofNat', hnat, hvalue, Int64.ofInt_toInt]
      exact if_pos (by omega)

/-- Variants that carry nothing, by name. -/
def unitEnum (names : TextForm Value) : JsonForm Value where
  write value := .string (names.print value)
  read
    | .string name => names.parse name
    | .object [(name, .null)] => names.parse name
    | _ => none
  read_write := names.parse_print

end JsonForm

namespace Json

@[simp]
theorem plain_object {members : List (String × Json)} :
    (object members).Plain ↔ ∀ member ∈ members, member.2.Plain := by
  rw [Plain]
  induction members with
  | nil => simp [PlainMembers]
  | cons member members ih =>
      obtain ⟨key, value⟩ := member
      simp [PlainMembers, ih]

@[simp]
theorem plain_array {items : List Json} : (array items).Plain ↔ ∀ item ∈ items, item.Plain := by
  rw [Plain]
  induction items with
  | nil => simp [PlainItems]
  | cons item items ih => simp [PlainItems, ih]

theorem normal_array {items : List Json} : (array items).Normal ↔ ∀ item ∈ items, item.Normal := by
  rw [Normal]
  induction items with
  | nil => simp [NormalItems]
  | cons item items ih => simp [NormalItems, ih]

/-- A document without doubles or repeated keys that nests within a bound. -/
structure Shallow (bound : ℕ) (json : Json) : Prop where
  plain : json.Plain
  normal : json.Normal
  depth_le : json.depth ≤ bound

theorem Shallow.mono {bound later : ℕ} {json : Json} (hjson : json.Shallow bound)
    (hle : bound ≤ later) : json.Shallow later :=
  { hjson with depth_le := hjson.depth_le.trans hle }

theorem shallow_object {bound : ℕ} {members : List (String × Json)}
    (hkeys : (members.map Prod.fst).Nodup)
    (hmembers : ∀ member ∈ members, member.2.Shallow bound) :
    (object members).Shallow (bound + 1) where
  plain := plain_object.mpr fun member hmember => (hmembers member hmember).plain
  normal := by
    rw [Normal, normalMembers_iff]
    exact ⟨hkeys, fun member hmember => (hmembers member hmember).normal⟩
  depth_le :=
    depth_object_le_succ_iff.mpr fun member hmember => (hmembers member hmember).depth_le

theorem shallow_array {bound : ℕ} {items : List Json}
    (hitems : ∀ item ∈ items, item.Shallow bound) : (array items).Shallow (bound + 1) where
  plain := plain_array.mpr fun item hitem => (hitems item hitem).plain
  normal := normal_array.mpr fun item hitem => (hitems item hitem).normal
  depth_le := depth_array_le_succ_iff.mpr fun item hitem => (hitems item hitem).depth_le

theorem shallow_string (text : String) : (string text).Shallow 0 :=
  ⟨by simp [Plain], by simp [Normal], by simp⟩

theorem shallow_null : null.Shallow 0 :=
  ⟨by simp [Plain], by simp [Normal], by simp [depth]⟩

theorem shallow_bool (value : Bool) : (bool value).Shallow 0 :=
  ⟨by simp [Plain], by simp [Normal], by simp [depth]⟩

theorem shallow_number {value : Number} (hvalue : PlainNumber value) :
    (number value).Shallow 0 :=
  ⟨by simpa [Plain] using hvalue, by simp [Normal], by simp⟩

end Json

/-- `Value::get` -/
def Json.get (name : String) : Json → Option Json
  | .object members => members.lookup name
  | _ => none

/-- An internally tagged enum: the variant, and the other members. -/
def Json.tagged (tag : String) : Json → Option (String × Json)
  | .object members =>
      match members.filter fun member => member.1 = tag with
      | [(_, .string variant)] =>
          some (variant, .object (members.filter fun member => member.1 ≠ tag))
      | _ => none
  | .array (.string variant :: items) => some (variant, .array items)
  | _ => none

theorem Json.tagged_cons {tag : String} {members : List (String × Json)}
    (hmembers : ∀ member ∈ members, member.1 ≠ tag) (variant : String) :
    Json.tagged tag (.object ((tag, .string variant) :: members)) =
      some (variant, .object members) := by
  have hnone : members.filter (fun member => member.1 = tag) = [] := by
    simpa using hmembers
  have hall : members.filter (fun member => member.1 ≠ tag) = members := by
    simpa using hmembers
  simp only [Json.tagged, List.filter_cons, decide_true, if_true, hnone, ne_eq, not_true_eq_false,
    decide_false, Bool.false_eq_true, if_false]
  rw [← hall]
  simp

/-! ## Wire forms -/

/-- How a value is written on the wire and read back. -/
structure WireForm (Value : Type) where
  /-- How deep its documents nest. -/
  bound : ℕ
  /-- The paths a value holds. -/
  paths : Value → List Utf8.OsString
  write : Value → Except String Json
  read : Json → Option Value
  writes : ∀ value, (∀ path ∈ paths value, ∃ text, Utf8.toStr path = some text) →
    ∃ json, write value = .ok json
  read_write : ∀ {value json}, write value = .ok json → read json = some value
  shallow : ∀ {value json}, write value = .ok json → json.Shallow bound

namespace WireForm

variable {Value Other : Type}

/-- A form whose values hold no paths. -/
def ofForm (form : JsonForm Value) (hform : ∀ value, (form.write value).Shallow 0) :
    WireForm Value where
  bound := 0
  paths _ := []
  write value := .ok (form.write value)
  read := form.read
  writes value _ := ⟨form.write value, rfl⟩
  read_write {value json} hwrite := by
    rw [← Except.ok.inj hwrite]
    exact form.read_write value
  shallow {value json} hwrite := Except.ok.inj hwrite ▸ hform value

def bool : WireForm Bool :=
  ofForm .bool Json.shallow_bool

def unit : WireForm Unit :=
  ofForm .unit fun _ => Json.shallow_null

def string : WireForm String :=
  ofForm .string Json.shallow_string

def text (form : TextForm Value) : WireForm Value :=
  ofForm (.text form) fun _ => Json.shallow_string _

def u64 : WireForm UInt64 :=
  ofForm .u64 fun _ => Json.shallow_number trivial

def u32 : WireForm UInt32 :=
  ofForm .u32 fun _ => Json.shallow_number trivial

def i64 : WireForm Int64 :=
  ofForm .i64 fun value => Json.shallow_number (by
    split
    · assumption
    · trivial)

def unitEnum (names : TextForm Value) : WireForm Value :=
  ofForm (.unitEnum names) fun _ => Json.shallow_string _

/-- `Path`, which is written as text. -/
def path : WireForm Utf8.OsString where
  bound := 0
  paths path := [path]
  write path :=
    match Utf8.toStr path with
    | some text => .ok (.string text)
    | none => .error "path contains invalid UTF-8 characters"
  read json := json.asString.map Utf8.encode
  writes path hvalid := by
    obtain ⟨text, htext⟩ := hvalid path List.mem_cons_self
    exact ⟨.string text, by rw [htext]⟩
  read_write {path json} hwrite := by
    split at hwrite
    · rename_i text htext
      rw [← Except.ok.inj hwrite, Utf8.toStr_eq_some_iff.mp htext]
      rfl
    · contradiction
  shallow {path json} hwrite := by
    split at hwrite
    · exact Except.ok.inj hwrite ▸ Json.shallow_string _
    · contradiction

theorem toStr_of_path_write {path : Utf8.OsString} {json : Json}
    (hwrite : WireForm.path.write path = .ok json) : ∃ text, Utf8.toStr path = some text := by
  simp only [WireForm.path] at hwrite
  split at hwrite
  · rename_i text htext
    exact ⟨text, htext⟩
  · contradiction

/-- An absent value is `null`. -/
def option (form : WireForm Value)
    (hnull : ∀ value, form.write value ≠ .ok .null) : WireForm (Option Value) where
  bound := form.bound
  paths value := value.elim [] form.paths
  write
    | none => .ok .null
    | some value => form.write value
  read := Json.asOption form.read
  writes
    | none, _ => ⟨.null, rfl⟩
    | some value, hvalid => form.writes value hvalid
  read_write {value json} hwrite := by
    cases value with
    | none => exact Except.ok.inj hwrite ▸ rfl
    | some value =>
        have hread := form.read_write hwrite
        cases json with
        | null => exact absurd hwrite (hnull value)
        | _ =>
            rw [Json.asOption, hread, Option.map_some]
            simp
  shallow {value json} hwrite := by
    cases value with
    | none => exact Except.ok.inj hwrite ▸ Json.shallow_null.mono (Nat.zero_le _)
    | some value => exact form.shallow hwrite

theorem mapM_write_eq_ok {form : WireForm Value} {items : List Value} {jsons : List Json}
    (hwrite : items.mapM form.write = .ok jsons) :
    jsons.mapM form.read = some items ∧ ∀ json ∈ jsons, json.Shallow form.bound := by
  induction items generalizing jsons with
  | nil =>
      obtain rfl : [] = jsons := Except.ok.inj hwrite
      exact ⟨rfl, by simp⟩
  | cons item items ih =>
      rw [List.mapM_cons] at hwrite
      cases hitem : form.write item with
      | error err => simp [hitem, bind, Except.bind] at hwrite
      | ok json =>
          cases hitems : items.mapM form.write with
          | error err => simp [hitem, hitems, bind, Except.bind] at hwrite
          | ok later =>
              obtain rfl : json :: later = jsons := by
                simpa [hitem, hitems, bind, Except.bind, pure, Except.pure] using hwrite
              obtain ⟨hread, hshallow⟩ := ih hitems
              rw [List.mapM_cons, form.read_write hitem, hread]
              exact ⟨rfl, List.forall_mem_cons.mpr ⟨form.shallow hitem, hshallow⟩⟩

def array (form : WireForm Value) : WireForm (List Value) where
  bound := form.bound + 1
  paths items := items.flatMap form.paths
  write items := (items.mapM form.write).map .array
  read
    | .array items => items.mapM form.read
    | _ => none
  writes items hvalid := by
    suffices hjsons : ∃ jsons, items.mapM form.write = .ok jsons by
      obtain ⟨jsons, hjsons⟩ := hjsons
      exact ⟨.array jsons, by rw [hjsons]; rfl⟩
    induction items with
    | nil => exact ⟨[], rfl⟩
    | cons item items ih =>
        obtain ⟨json, hjson⟩ := form.writes item fun path hpath =>
          hvalid path (List.mem_flatMap.mpr ⟨item, List.mem_cons_self, hpath⟩)
        obtain ⟨jsons, hjsons⟩ := ih fun path hpath => by
          obtain ⟨later, hlater, hpath⟩ := List.mem_flatMap.mp hpath
          exact hvalid path (List.mem_flatMap.mpr ⟨later, List.mem_cons_of_mem item hlater, hpath⟩)
        exact ⟨json :: jsons, by rw [List.mapM_cons, hjson, hjsons]; rfl⟩
  read_write {items json} hwrite := by
    obtain ⟨jsons, hjsons, rfl⟩ := map_eq_ok_iff.mp hwrite
    exact (mapM_write_eq_ok hjsons).1
  shallow {items json} hwrite := by
    obtain ⟨jsons, hjsons, rfl⟩ := map_eq_ok_iff.mp hwrite
    exact Json.shallow_array (mapM_write_eq_ok hjsons).2

theorem elim_paths_eq_nil {form : WireForm Value} (hform : ∀ value, form.paths value = [])
    (value : Option Value) : value.elim [] form.paths = [] := by
  cases value with
  | none => rfl
  | some value => exact hform value

theorem paths_array_eq_nil {form : WireForm Value} (hform : ∀ value, form.paths value = [])
    (items : List Value) : form.array.paths items = [] :=
  List.flatMap_eq_nil_iff.mpr fun value _ => hform value

/-- A form of values that are made from others. -/
def map (form : WireForm Value) (make : Value → Other) (parts : Other → Value)
    (hparts : ∀ value, make (parts value) = value) : WireForm Other where
  bound := form.bound
  paths value := form.paths (parts value)
  write value := form.write (parts value)
  read json := (form.read json).map make
  writes value hvalid := form.writes (parts value) hvalid
  read_write {value json} hwrite := by
    rw [form.read_write hwrite, Option.map_some, hparts]
  shallow hwrite := form.shallow hwrite

end WireForm

/-! ## Records -/

/-- The named fields of a record, and how they are written and read back. -/
structure RecordForm (Value : Type) where
  bound : ℕ
  names : List String
  paths : Value → List Utf8.OsString
  write : Value → Except String (List (String × Json))
  read : Json.Fields → Option Value
  writes : ∀ value, (∀ path ∈ paths value, ∃ text, Utf8.toStr path = some text) →
    ∃ members, write value = .ok members
  keys_sublist : ∀ {value members}, write value = .ok members →
    (members.map Prod.fst).Sublist names
  /-- Reading needs nothing but the fields of the record, absent ones included. -/
  read_write : ∀ {value members}, names.Nodup → write value = .ok members →
    ∀ fields : Json.Fields, (∀ name ∈ names, fields name = members.lookup name) →
      read fields = some value
  shallow : ∀ {value members}, write value = .ok members →
    ∀ member ∈ members, member.2.Shallow bound

namespace RecordForm

def nil : RecordForm Unit where
  bound := 0
  names := []
  paths _ := []
  write _ := .ok []
  read _ := some ()
  writes _ _ := ⟨[], rfl⟩
  keys_sublist {value members} hwrite := by
    obtain rfl : [] = members := Except.ok.inj hwrite
    exact .slnil
  read_write _ _ _ _ := rfl
  shallow {value members} hwrite := by
    obtain rfl : [] = members := Except.ok.inj hwrite
    simp

/-- The members of the first field and of the others. -/
def writeBoth (first : Except String (List (String × Json)))
    (rest : Except String (List (String × Json))) : Except String (List (String × Json)) := do
  let member ← first
  let members ← rest
  return member ++ members

theorem writeBoth_eq_ok_iff {first rest : Except String (List (String × Json))}
    {members : List (String × Json)} :
    writeBoth first rest = .ok members ↔
      ∃ before after, first = .ok before ∧ rest = .ok after ∧ members = before ++ after := by
  cases first <;> cases rest <;> simp [writeBoth, bind, Except.bind, pure, Except.pure, eq_comm]

theorem lookup_append_of_not_mem {before after : List (String × Json)} {name : String}
    (hname : name ∉ before.map Prod.fst) :
    (before ++ after).lookup name = after.lookup name := by
  rw [List.lookup_append, List.lookup_eq_none_iff.mpr, Option.none_or]
  intro member hmember
  rw [bne_iff_ne]
  rintro rfl
  exact hname (List.mem_map_of_mem hmember)

/-- The member of a field that may be left out. -/
def member (name : String) (json : Option Json) : List (String × Json) :=
  (json.map fun json => (name, json)).toList

theorem lookup_member_append {name : String} {json : Option Json}
    {after : List (String × Json)} (hname : name ∉ after.map Prod.fst) :
    (member name json ++ after).lookup name = json := by
  cases json with
  | some json => simp [member]
  | none =>
      refine List.lookup_eq_none_iff.mpr fun entry hentry => ?_
      rw [bne_iff_ne]
      rintro rfl
      exact hname (List.mem_map_of_mem hentry)

theorem lookup_member_append_of_ne {name other : String} (hne : other ≠ name)
    (json : Option Json) (after : List (String × Json)) :
    (member name json ++ after).lookup other = after.lookup other := by
  refine lookup_append_of_not_mem fun hmem => hne ?_
  cases json with
  | none => simp [member] at hmem
  | some json => simpa [member] using hmem

end RecordForm

/-- How one field is written, if at all, and read from what the record has under its
name. -/
structure FieldForm (Value : Type) where
  bound : ℕ
  paths : Value → List Utf8.OsString
  write : Value → Except String (Option Json)
  read : Option Json → Option Value
  writes : ∀ value, (∀ path ∈ paths value, ∃ text, Utf8.toStr path = some text) →
    ∃ json, write value = .ok json
  read_write : ∀ {value json}, write value = .ok json → read json = some value
  shallow : ∀ {value json}, write value = .ok (some json) → json.Shallow bound

namespace FieldForm

variable {Value : Type}

/-- A field that is always written, and reads a missing one by the given rule. -/
def written (form : WireForm Value) (missing : Option Value) : FieldForm Value where
  bound := form.bound
  paths := form.paths
  write value := (form.write value).map some
  read json := json.elim missing form.read
  writes value hvalid := by
    obtain ⟨json, hjson⟩ := form.writes value hvalid
    exact ⟨some json, by rw [hjson]; rfl⟩
  read_write {value json} hwrite := by
    obtain ⟨written, hwritten, rfl⟩ := map_eq_ok_iff.mp hwrite
    exact form.read_write hwritten
  shallow {value json} hwrite := by
    obtain ⟨written, hwritten, hjson⟩ := map_eq_ok_iff.mp hwrite
    exact form.shallow (Option.some.inj hjson ▸ hwritten)

def required (form : WireForm Value) : FieldForm Value :=
  written form none

/-- `#[serde(default)]`, or an `Option` field. -/
def defaulted (form : WireForm Value) (value : Value) : FieldForm Value :=
  written form (some value)

/-- `#[serde(default, skip_serializing_if = "Option::is_none")]` -/
def skipped (form : WireForm Value) (hnull : ∀ value, form.write value ≠ .ok .null) :
    FieldForm (Option Value) where
  bound := form.bound
  paths value := value.elim [] form.paths
  write
    | none => .ok none
    | some value => (form.write value).map some
  read json := json.elim (some none) (form.option hnull).read
  writes
    | none, _ => ⟨none, rfl⟩
    | some value, hvalid => (required (form.option hnull)).writes (some value) hvalid
  read_write {value json} hwrite := by
    cases value with
    | none => exact Except.ok.inj hwrite ▸ rfl
    | some value =>
        obtain ⟨written, hwritten, rfl⟩ := map_eq_ok_iff.mp hwrite
        have hsome : (form.option hnull).write (some value) = .ok written := hwritten
        exact (form.option hnull).read_write hsome
  shallow {value json} hwrite := by
    cases value with
    | none => simp at hwrite
    | some value =>
        have hsome : (required (form.option hnull)).write (some value) = .ok (some json) := hwrite
        exact (required (form.option hnull)).shallow hsome

end FieldForm

namespace RecordForm

variable {First Rest Value Other : Type}

/-- A field followed by others. -/
def cons (name : String) (field : FieldForm First) (rest : RecordForm Rest) :
    RecordForm (First × Rest) where
  bound := max field.bound rest.bound
  names := name :: rest.names
  paths value := field.paths value.1 ++ rest.paths value.2
  write value := writeBoth ((field.write value.1).map (member name)) (rest.write value.2)
  read fields := do
    let first ← field.read (fields name)
    let others ← rest.read fields
    return (first, others)
  writes value hvalid := by
    obtain ⟨json, hjson⟩ := field.writes value.1 fun path hpath =>
      hvalid path (List.mem_append_left _ hpath)
    obtain ⟨members, hmembers⟩ := rest.writes value.2 fun path hpath =>
      hvalid path (List.mem_append_right _ hpath)
    exact ⟨member name json ++ members, by rw [hjson, hmembers]; rfl⟩
  keys_sublist {value members} hwrite := by
    obtain ⟨before, after, hbefore, hafter, rfl⟩ := writeBoth_eq_ok_iff.mp hwrite
    obtain ⟨json, -, rfl⟩ := map_eq_ok_iff.mp hbefore
    have hrest := rest.keys_sublist hafter
    cases json with
    | none => simpa [member] using hrest.cons name
    | some json => simpa [member] using hrest.cons_cons name
  read_write {value members} hnodup hwrite fields hfields := by
    obtain ⟨before, after, hbefore, hafter, rfl⟩ := writeBoth_eq_ok_iff.mp hwrite
    obtain ⟨json, hjson, rfl⟩ := map_eq_ok_iff.mp hbefore
    obtain ⟨hname, hnames⟩ := List.nodup_cons.mp hnodup
    have habsent : name ∉ after.map Prod.fst := fun hmem =>
      hname ((rest.keys_sublist hafter).subset hmem)
    have hmine : fields name = json := by
      rw [hfields name List.mem_cons_self, lookup_member_append habsent]
    have hothers : rest.read fields = some value.2 := by
      refine rest.read_write hnames hafter fields fun other hother => ?_
      have hne : other ≠ name := fun heq => hname (heq ▸ hother)
      rw [hfields other (List.mem_cons_of_mem name hother), lookup_member_append_of_ne hne]
    rw [hmine, field.read_write hjson, hothers]
    rfl
  shallow {value members} hwrite := by
    obtain ⟨before, after, hbefore, hafter, rfl⟩ := writeBoth_eq_ok_iff.mp hwrite
    obtain ⟨json, hjson, rfl⟩ := map_eq_ok_iff.mp hbefore
    refine List.forall_mem_append.mpr ⟨fun entry hentry => ?_, fun entry hentry =>
      (rest.shallow hafter entry hentry).mono (le_max_right _ _)⟩
    cases json with
    | none => simp [member] at hentry
    | some json =>
        obtain rfl : entry = (name, json) := by simpa [member] using hentry
        exact (field.shallow hjson).mono (le_max_left _ _)

@[simp]
theorem names_nil : nil.names = [] := rfl

@[simp]
theorem names_cons (name : String) (field : FieldForm First) (rest : RecordForm Rest) :
    (cons name field rest).names = name :: rest.names := rfl

/-- A record is written when all its fields are. -/
theorem exists_of_cons_write {name : String} {field : FieldForm First} {rest : RecordForm Rest}
    {value : First × Rest} {members : List (String × Json)}
    (hwrite : (cons name field rest).write value = .ok members) :
    (∃ json, field.write value.1 = .ok json) ∧ ∃ after, rest.write value.2 = .ok after := by
  obtain ⟨before, after, hbefore, hafter, -⟩ := writeBoth_eq_ok_iff.mp hwrite
  obtain ⟨json, hjson, -⟩ := map_eq_ok_iff.mp hbefore
  exact ⟨⟨json, hjson⟩, after, hafter⟩

/-- A record without paths in its fields has none. -/
theorem append_paths_eq_nil {field : FieldForm First} {rest : RecordForm Rest}
    (hfield : ∀ value, field.paths value = []) (hrest : ∀ value, rest.paths value = [])
    (value : First × Rest) : field.paths value.1 ++ rest.paths value.2 = [] :=
  List.append_eq_nil_iff.mpr ⟨hfield value.1, hrest value.2⟩

theorem asStruct_object (form : RecordForm Value) (hnodup : form.names.Nodup) {value : Value}
    {members : List (String × Json)} (hmembers : form.write value = .ok members) :
    (Json.object members).asStruct form.names = some fun name => members.lookup name := by
  have hkeys := hnodup.sublist (form.keys_sublist hmembers)
  rw [Json.asStruct, if_pos]
  exact List.all_eq_true.mpr fun name _ =>
    decide_eq_true (List.nodup_iff_count_le_one.mp hkeys name)

/-- The object of a record. -/
def record (form : RecordForm Value) (hnodup : form.names.Nodup) : WireForm Value where
  bound := form.bound + 1
  paths := form.paths
  write value := (form.write value).map .object
  read json := (json.asStruct form.names).bind form.read
  writes value hvalid := by
    obtain ⟨members, hmembers⟩ := form.writes value hvalid
    exact ⟨.object members, by rw [hmembers]; rfl⟩
  read_write {value json} hwrite := by
    obtain ⟨members, hmembers, rfl⟩ := map_eq_ok_iff.mp hwrite
    rw [form.asStruct_object hnodup hmembers, Option.bind_some]
    exact form.read_write hnodup hmembers _ fun _ _ => rfl
  shallow {value json} hwrite := by
    obtain ⟨members, hmembers, rfl⟩ := map_eq_ok_iff.mp hwrite
    exact Json.shallow_object (hnodup.sublist (form.keys_sublist hmembers))
      (form.shallow hmembers)

/-- Whatever the record has under the name is a text of the form. -/
def HasText {Key : Type} (record : RecordForm Value) (name : String) (form : TextForm Key) :
    Prop :=
  ∀ value members json, record.write value = .ok members → members.lookup name = some json →
    ∃ key, json = .string (form.print key)

@[simp]
theorem hasText_nil {Key : Type} (name : String) (form : TextForm Key) :
    nil.HasText name form := by
  intro value members json hwrite hlookup
  obtain rfl : [] = members := Except.ok.inj hwrite
  simp at hlookup

theorem hasText_cons {Key : Type} {name : String} {form : TextForm Key}
    {rest : RecordForm Rest} (hname : name ∉ rest.names) :
    (cons name (.required (.text form)) rest).HasText name form := by
  intro value members json hwrite hlookup
  obtain ⟨before, after, hbefore, hafter, rfl⟩ := writeBoth_eq_ok_iff.mp hwrite
  obtain ⟨written, hwritten, rfl⟩ := map_eq_ok_iff.mp hbefore
  have habsent : name ∉ after.map Prod.fst := fun hmem =>
    hname ((rest.keys_sublist hafter).subset hmem)
  rw [lookup_member_append habsent] at hlookup
  have hstring : some (Json.string (form.print value.1)) = written := Except.ok.inj hwritten
  exact ⟨value.1, (Option.some.inj (hstring.trans hlookup)).symm⟩

theorem hasText_cons_of_ne {Key : Type} {name other : String} {form : TextForm Key}
    {field : FieldForm First} {rest : RecordForm Rest} (hne : name ≠ other)
    (hrest : rest.HasText name form) : (cons other field rest).HasText name form := by
  intro value members json hwrite hlookup
  obtain ⟨before, after, hbefore, hafter, rfl⟩ := writeBoth_eq_ok_iff.mp hwrite
  obtain ⟨written, -, rfl⟩ := map_eq_ok_iff.mp hbefore
  rw [lookup_member_append_of_ne hne] at hlookup
  exact hrest value.2 after json hafter hlookup

theorem record_write_ne_null (form : RecordForm Value) (hnodup : form.names.Nodup)
    (value : Value) : (form.record hnodup).write value ≠ .ok .null := by
  intro hnull
  obtain ⟨members, -, hobject⟩ := map_eq_ok_iff.mp hnull
  exact Json.noConfusion hobject

/-- The object of a variant, whose name stands under the tag. -/
def writeTagged (form : RecordForm Value) (tag variant : String) (value : Value) :
    Except String Json :=
  (form.write value).map fun members => .object ((tag, .string variant) :: members)

/-- The fields of a variant. -/
def readContent (form : RecordForm Value) (content : Json) : Option Value :=
  (content.asStruct form.names).bind form.read

theorem exists_writeTagged (form : RecordForm Value) (tag variant : String) {value : Value}
    (hvalid : ∀ path ∈ form.paths value, ∃ text, Utf8.toStr path = some text) :
    ∃ json, form.writeTagged tag variant value = .ok json := by
  obtain ⟨members, hmembers⟩ := form.writes value hvalid
  exact ⟨_, map_eq_ok_iff.mpr ⟨members, hmembers, rfl⟩⟩

/-- A tagged variant is told by its tag and read back from its other members. -/
theorem tagged_of_writeTagged {form : RecordForm Value} {tag variant : String} {value : Value}
    {json : Json} (hnodup : (tag :: form.names).Nodup)
    (hwrite : form.writeTagged tag variant value = .ok json) :
    ∃ content, json.tagged tag = some (variant, content) ∧
      form.readContent content = some value ∧ json.Shallow (form.bound + 1) := by
  obtain ⟨members, hmembers, rfl⟩ := map_eq_ok_iff.mp hwrite
  obtain ⟨htag, hnames⟩ := List.nodup_cons.mp hnodup
  have hkeys := form.keys_sublist hmembers
  have habsent : tag ∉ members.map Prod.fst := fun hmem => htag (hkeys.subset hmem)
  refine ⟨.object members, ?_, ?_, ?_⟩
  · refine Json.tagged_cons (fun member hmember heq => habsent ?_) variant
    exact heq ▸ List.mem_map_of_mem hmember
  · rw [readContent, form.asStruct_object hnames hmembers, Option.bind_some]
    exact form.read_write hnames hmembers _ fun _ _ => rfl
  · refine Json.shallow_object (List.nodup_cons.mpr ⟨habsent, hnames.sublist hkeys⟩) ?_
    exact List.forall_mem_cons.mpr
      ⟨(Json.shallow_string variant).mono (Nat.zero_le _), form.shallow hmembers⟩

end RecordForm

/-! ## Enumerations with contents -/

/-- A variant of an internally tagged enum, with its fields. -/
structure TaggedVariant where
  {Fields : Type}
  name : String
  form : RecordForm Fields
  fields : Fields

/-- A variant of an externally tagged enum, with what it carries. -/
structure KeyedVariant where
  {Content : Type}
  name : String
  form : WireForm Content
  content : Content

namespace WireForm

variable {Value : Type}

/-- An enum whose variant stands in a member of the object of its fields. -/
def taggedEnum (tag : String) (bound : ℕ) (variant : Value → TaggedVariant)
    (read : String → Json → Option Value)
    (hnodup : ∀ value, (tag :: (variant value).form.names).Nodup)
    (hbound : ∀ value, (variant value).form.bound + 1 ≤ bound)
    (hread : ∀ value content, (variant value).form.readContent content =
      some (variant value).fields → read (variant value).name content = some value) :
    WireForm Value where
  bound := bound
  paths value := (variant value).form.paths (variant value).fields
  write value := (variant value).form.writeTagged tag (variant value).name (variant value).fields
  read json := (json.tagged tag).bind fun (name, content) => read name content
  writes value hvalid := (variant value).form.exists_writeTagged tag (variant value).name hvalid
  read_write {value json} hwrite := by
    obtain ⟨content, htagged, hcontent, -⟩ :=
      RecordForm.tagged_of_writeTagged (hnodup value) hwrite
    rw [htagged, Option.bind_some]
    exact hread value content hcontent
  shallow {value json} hwrite := by
    obtain ⟨content, -, -, hshallow⟩ := RecordForm.tagged_of_writeTagged (hnodup value) hwrite
    exact hshallow.mono (hbound value)

/-- The only member of an object. -/
def readKeyed (read : String → Json → Option Value) : Json → Option Value
  | .object [(name, content)] => read name content
  | _ => none

/-- An enum whose variant is the only key of an object. -/
def keyedEnum (bound : ℕ) (variant : Value → KeyedVariant)
    (read : String → Json → Option Value)
    (hbound : ∀ value, (variant value).form.bound + 1 ≤ bound)
    (hread : ∀ value content, (variant value).form.read content =
      some (variant value).content → read (variant value).name content = some value) :
    WireForm Value where
  bound := bound
  paths value := (variant value).form.paths (variant value).content
  write value := ((variant value).form.write (variant value).content).map fun content =>
    .object [((variant value).name, content)]
  read := readKeyed read
  writes value hvalid := by
    obtain ⟨content, hcontent⟩ := (variant value).form.writes _ hvalid
    exact ⟨_, map_eq_ok_iff.mpr ⟨content, hcontent, rfl⟩⟩
  read_write {value json} hwrite := by
    obtain ⟨content, hcontent, rfl⟩ := map_eq_ok_iff.mp hwrite
    exact hread value content ((variant value).form.read_write hcontent)
  shallow {value json} hwrite := by
    obtain ⟨content, hcontent, rfl⟩ := map_eq_ok_iff.mp hwrite
    have hmembers : ∀ member ∈ [((variant value).name, content)],
        member.2.Shallow (variant value).form.bound :=
      List.forall_mem_singleton.mpr ((variant value).form.shallow hcontent)
    exact (Json.shallow_object (by simp) hmembers).mono (hbound value)

/-- The form writes nothing but objects. -/
def Objects (form : WireForm Value) : Prop :=
  ∀ value json, form.write value = .ok json → ∃ members, json = .object members

section Objects

variable {tag : String} {bound : ℕ} {read : String → Json → Option Value}

theorem objects_taggedEnum {variant : Value → TaggedVariant}
    (hnodup : ∀ value, (tag :: (variant value).form.names).Nodup)
    (hbound : ∀ value, (variant value).form.bound + 1 ≤ bound)
    (hread : ∀ value content, (variant value).form.readContent content =
      some (variant value).fields → read (variant value).name content = some value) :
    (taggedEnum tag bound variant read hnodup hbound hread).Objects := by
  intro value json hwrite
  obtain ⟨members, -, rfl⟩ := map_eq_ok_iff.mp hwrite
  exact ⟨_, rfl⟩

/-- What stands under a name other than the tag is a text of the form the variants have
there. -/
theorem exists_print_of_get_taggedEnum {Key : Type} {variant : Value → TaggedVariant}
    {hnodup : ∀ value, (tag :: (variant value).form.names).Nodup}
    {hbound : ∀ value, (variant value).form.bound + 1 ≤ bound}
    {hread : ∀ value content, (variant value).form.readContent content =
      some (variant value).fields → read (variant value).name content = some value}
    {name : String} {form : TextForm Key} (hne : name ≠ tag)
    (hform : ∀ value, (variant value).form.HasText name form) {value : Value} {json found : Json}
    (hwrite : (taggedEnum tag bound variant read hnodup hbound hread).write value = .ok json)
    (hfound : json.get name = some found) : ∃ key, found = .string (form.print key) := by
  obtain ⟨members, hmembers, rfl⟩ := map_eq_ok_iff.mp hwrite
  rw [Json.get, List.lookup_cons, beq_eq_false_iff_ne.mpr hne] at hfound
  exact hform value _ members found hmembers hfound

theorem objects_keyedEnum {variant : Value → KeyedVariant}
    (hbound : ∀ value, (variant value).form.bound + 1 ≤ bound)
    (hread : ∀ value content, (variant value).form.read content =
      some (variant value).content → read (variant value).name content = some value) :
    (keyedEnum bound variant read hbound hread).Objects := by
  intro value json hwrite
  obtain ⟨content, -, rfl⟩ := map_eq_ok_iff.mp hwrite
  exact ⟨_, rfl⟩

end Objects

end WireForm

/-! ## Texts -/

namespace WireForm

variable {Value : Type}

/-- The paths of the value are UTF-8. -/
def PathsValid (form : WireForm Value) (value : Value) : Prop :=
  ∀ path ∈ form.paths value, ∃ text, Utf8.toStr path = some text

section Text

variable (floats : Json.Floats) (form : WireForm Value)

/-- `serde_json::to_string` -/
def print (value : Value) : Except String (List Char) :=
  (form.write value).map (Json.print floats)

/-- `serde_json::from_str` -/
def parse (text : List Char) : Option Value :=
  (Json.parse floats text).bind (Json.fromText form.read)

end Text

variable {floats : Json.Floats} {form : WireForm Value} {value : Value} {text : List Char}

theorem exists_print (hvalid : form.PathsValid value) :
    ∃ text, form.print floats value = .ok text := by
  obtain ⟨json, hjson⟩ := form.writes value hvalid
  exact ⟨json.print floats, map_eq_ok_iff.mpr ⟨json, hjson, rfl⟩⟩

/-- What was printed parses to the value. -/
theorem parse_of_print (hbound : form.bound ≤ Json.maxDepth)
    (htext : form.print floats value = .ok text) : form.parse floats text = some value := by
  obtain ⟨json, hjson, rfl⟩ := map_eq_ok_iff.mp htext
  have hshallow := form.shallow hjson
  rw [parse, Json.parse_print floats hshallow.plain, Option.bind_some, Json.fromText,
    if_pos (hshallow.depth_le.trans hbound)]
  exact form.read_write hjson

theorem printable_of_print (htext : form.print floats value = .ok text) :
    Json.Printable text := by
  obtain ⟨json, hjson, rfl⟩ := map_eq_ok_iff.mp htext
  exact Json.printable_print json (form.shallow hjson).plain

/-- Trimming takes the newline off an object's line, and no more. -/
theorem trimEnd_of_print (hobjects : form.Objects)
    (htext : form.print floats value = .ok text) :
    Utf8.trimEnd (text ++ ['\n']) = text := by
  obtain ⟨json, hjson, rfl⟩ := map_eq_ok_iff.mp htext
  obtain ⟨members, rfl⟩ := hobjects value json hjson
  have htext : (Json.object members).print floats =
      ('{' :: Json.printMembers floats members) ++ ['}'] := by
    rw [Json.print]
    rfl
  rw [htext]
  exact Utf8.trimEnd_newline (by decide)

theorem newline_not_mem_of_print (htext : form.print floats value = .ok text) :
    '\n' ∉ text := by
  intro hmem
  exact absurd (printable_of_print htext '\n' hmem) (by decide)

end WireForm

end RadicleArtifact.Library
