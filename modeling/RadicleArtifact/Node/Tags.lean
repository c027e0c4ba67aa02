import RadicleArtifact.Core.Text
import RadicleArtifact.Node.Stream

/-!
# Seeded tags

What the node seeds is recorded only in the names of tags: a version byte, the
repository and the release with their lengths, and the binary form of the content
identifier.  This module models the tag store with its seven operations and shows
that it holds a set of triples, whatever other names share the store.
-/

namespace RadicleArtifact.Node

open RadicleArtifact.Core
open RadicleArtifact.Library

/-- Repository, release and content of a seeded tag. -/
abbrev Triple := RepoId × Oid × Cid

instance nameTransCmp : Std.TransCmp (@compare (List Byte) LinearOrder.toOrd) :=
  inferInstance

/-- The tag store: contents by name, listed in the order of the names. -/
abbrev Tags := BTreeMap (List Byte) HashAndFormat

namespace Tags

def seededTagV1 : Byte := 0x01

def seededRidPrefix (rid : RepoId) : List Byte :=
  seededTagV1 :: Fin.ofNat 256 rid.toList.length :: rid.toList

def seededReleasePrefix (rid : RepoId) (release : Oid) : List Byte :=
  seededRidPrefix rid ++ Fin.ofNat 256 release.toList.length :: release.toList

def seededTag (bytes : CidBytes) (rid : RepoId) (release : Oid) (cid : Cid) : List Byte :=
  seededReleasePrefix rid release ++ bytes.toBytes cid

def oidFromBytes (bytes : List Byte) : Option Oid :=
  if hlength : bytes.length = 20 then some ⟨bytes, hlength⟩ else none

/-- Split a length byte and that many bytes off the front. -/
def takeLenPrefixed : List Byte → Option (List Byte × List Byte)
  | [] => none
  | len :: rest => if rest.length < len.val then none else some (rest.splitAt len.val)

def stripVersion : List Byte → Option (List Byte)
  | version :: rest => if version = seededTagV1 then some rest else none
  | [] => none

def parseSeededTag (bytes : CidBytes) (name : List Byte) : Option Triple := do
  let rest ← stripVersion name
  let (ridBytes, rest) ← takeLenPrefixed rest
  let (releaseBytes, cidBytes) ← takeLenPrefixed rest
  let rid ← oidFromBytes ridBytes
  let release ← oidFromBytes releaseBytes
  let cid ← bytes.tryFrom cidBytes
  return (rid, release, cid)

/-- The tags whose names start with the given bytes. -/
def listPrefix (tags : Tags) (start : List Byte) : List (List Byte × HashAndFormat) :=
  tags.toList.filter fun info => start.isPrefixOf info.1

/-- How many tags were deleted, and the tags left. -/
def delete (tags : Tags) (name : List Byte) : ℕ × Tags :=
  (if name ∈ tags then 1 else 0, tags.erase name)

section Operations

variable (bytes : CidBytes) (tags : Tags)

def tagSeeded (rid : RepoId) (release : Oid) (cid : Cid) (hash : Hash) :
    Except ShareError Tags := do
  let value ← tagValue cid hash
  return tags.insert (seededTag bytes rid release cid) value

def untagSeeded (rid : RepoId) (release : Oid) (cid : Cid) : Bool × Tags :=
  let (removed, tags) := tags.delete (seededTag bytes rid release cid)
  (decide (removed > 0), tags)

/-- The content identifier in the name of a tag is the given one. -/
def namesCid (cid : Cid) (name : List Byte) : Bool :=
  match parseSeededTag bytes name with
  | some (_, _, tagCid) => decide (tagCid = cid)
  | none => false

/-- Delete the names of a snapshot one by one, adding up what was deleted. -/
def deleteAll (names : List (List Byte)) : ℕ × Tags :=
  names.foldl (fun (removed, tags) name =>
    let (count, tags) := tags.delete name
    (removed + count, tags)) (0, tags)

def untagAll (rid : RepoId) (cid : Cid) : ℕ × Tags :=
  tags.deleteAll (((tags.listPrefix (seededRidPrefix rid)).map Prod.fst).filter
    (namesCid bytes cid))

def isSeeded (rid : RepoId) (release : Oid) (cid : Cid) : Bool :=
  tags[seededTag bytes rid release cid]?.isSome

def isSeededAny (rid : RepoId) (cid : Cid) : Bool :=
  (tags.listPrefix (seededRidPrefix rid)).any fun info => namesCid bytes cid info.1

/-- Add a release to the entry of its content identifier, a new one if need be. -/
def pushRelease (out : IndexMap Cid (Hash × List Oid)) (release : Oid) (cid : Cid)
    (hash : Hash) : IndexMap Cid (Hash × List Oid) :=
  match out.get? cid with
  | some (first, releases) => out.insert cid (first, releases ++ [release])
  | none => out.insert cid (hash, [release])

def seededCids (rid : RepoId) : IndexMap Cid (Hash × List Oid) :=
  (tags.listPrefix (seededRidPrefix rid)).foldl (fun out info =>
    match parseSeededTag bytes info.1 with
    | some (_, release, cid) => pushRelease out release cid info.2.hash
    | none => out) ∅

def allSeeded : List (RepoId × Oid × Cid × Hash) :=
  (tags.listPrefix [seededTagV1]).filterMap fun info =>
    (parseSeededTag bytes info.1).map fun (rid, release, cid) =>
      (rid, release, cid, info.2.hash)

end Operations

/-! ## Names of tags -/

variable {bytes : CidBytes}

theorem oidFromBytes_toList (oid : Oid) : oidFromBytes oid.toList = some oid := by
  rw [oidFromBytes, dif_pos oid.length_toList]

theorem takeLenPrefixed_append {field : List Byte} (hlength : field.length < 256)
    (rest : List Byte) :
    takeLenPrefixed (Fin.ofNat 256 field.length :: field ++ rest) = some (field, rest) := by
  have hbyte : (Fin.ofNat 256 field.length : Byte).val = field.length := Nat.mod_eq_of_lt hlength
  rw [List.cons_append, takeLenPrefixed, hbyte, if_neg (by simp)]
  simp

theorem seededTag_eq (rid release : Oid) (cid : Cid) :
    seededTag bytes rid release cid =
      seededTagV1 :: (Fin.ofNat 256 rid.toList.length :: rid.toList ++
        (Fin.ofNat 256 release.toList.length :: release.toList ++ bytes.toBytes cid)) := by
  simp [seededTag, seededReleasePrefix, seededRidPrefix]

theorem parseSeededTag_seededTag (rid release : Oid) (cid : Cid) :
    parseSeededTag bytes (seededTag bytes rid release cid) = some (rid, release, cid) := by
  have hlength : ∀ oid : Oid, oid.toList.length < 256 := fun oid => by
    rw [oid.length_toList]
    decide
  rw [seededTag_eq, parseSeededTag, stripVersion, if_pos rfl]
  simp only [Option.bind_eq_bind, Option.bind_some, takeLenPrefixed_append (hlength rid),
    takeLenPrefixed_append (hlength release), oidFromBytes_toList, bytes.tryFrom_toBytes]
  rfl

/-- The name of a triple's tag. -/
def name (bytes : CidBytes) (triple : Triple) : List Byte :=
  seededTag bytes triple.1 triple.2.1 triple.2.2

theorem parseSeededTag_name (triple : Triple) :
    parseSeededTag bytes (name bytes triple) = some triple :=
  parseSeededTag_seededTag triple.1 triple.2.1 triple.2.2

theorem name_injective : Function.Injective (name bytes) := by
  intro left right heq
  have hparsed := @parseSeededTag_name bytes left
  rw [heq, parseSeededTag_name] at hparsed
  exact (Option.some.inj hparsed).symm

theorem seededRidPrefix_prefix_iff (rid : RepoId) (triple : Triple) :
    seededRidPrefix rid <+: name bytes triple ↔ triple.1 = rid := by
  have hlength : (seededRidPrefix rid).length = (seededRidPrefix triple.1).length := by
    simp only [seededRidPrefix, List.length_cons, rid.length_toList, triple.1.length_toList]
  have hname : name bytes triple = seededRidPrefix triple.1 ++
      (Fin.ofNat 256 triple.2.1.toList.length :: triple.2.1.toList ++
        bytes.toBytes triple.2.2) := by
    simp [name, seededTag, seededReleasePrefix]
  rw [hname]
  constructor
  · intro hinitial
    have hstart := List.prefix_of_prefix_length_le hinitial (List.prefix_append _ _) hlength.le
    have heq : seededRidPrefix rid = seededRidPrefix triple.1 := hstart.eq_of_length hlength
    simp only [seededRidPrefix, List.cons.injEq] at heq
    exact (FixedBytes.toList_injective heq.2.2).symm
  · rintro rfl
    exact List.prefix_append _ _

theorem namesCid_name (cid : Cid) (triple : Triple) :
    namesCid bytes cid (name bytes triple) = decide (triple.2.2 = cid) := by
  rw [namesCid, parseSeededTag_name]

theorem seededTagV1_prefix_name (triple : Triple) :
    [seededTagV1] <+: name bytes triple := by
  simp [name, seededTag_eq]

end Tags

/-! ## The set of triples -/

/-- What the tags stand for: a set of triples, each with its content. -/
abbrev Seeded := IndexMap Triple HashAndFormat

namespace Seeded

variable (seeded : Seeded)

def tag (triple : Triple) (hash : Hash) : Except ShareError Seeded :=
  (tagValue triple.2.2 hash).map (seeded.insert triple)

/-- Whether the triple was in the set, and the set without it. -/
def untag (triple : Triple) : Bool × Seeded :=
  (decide (triple ∈ seeded.keys), seeded.shiftRemove triple)

/-- The triple seeds the content in the repository. -/
def Seeds (rid : RepoId) (cid : Cid) (triple : Triple) : Prop :=
  triple.1 = rid ∧ triple.2.2 = cid

instance (rid : RepoId) (cid : Cid) (triple : Triple) : Decidable (Seeds rid cid triple) :=
  inferInstanceAs (Decidable (_ ∧ _))

/-- How many triples seeded the content in the repository, and the others. -/
def untagAll (rid : RepoId) (cid : Cid) : ℕ × Seeded :=
  ((seeded.keys.filter (Seeds rid cid ·)).length,
    seeded.retain fun triple => ¬ Seeds rid cid triple)

/-- The listing's entry for a content identifier: none if no release seeds it, else
those that do, each once, under the hash of one of them. -/
def Lists (rid : RepoId) (cid : Cid) : Option (Hash × List Oid) → Prop
  | none => ∀ release, (rid, release, cid) ∉ seeded.keys
  | some (hash, releases) =>
      releases.Nodup ∧ (∀ release, release ∈ releases ↔ (rid, release, cid) ∈ seeded.keys) ∧
        ∃ release format, seeded.get? (rid, release, cid) = some ⟨hash, format⟩

end Seeded

/-- The tags under the version byte are those of the set; other names are free. -/
structure Refines (bytes : CidBytes) (tags : Tags) (seeded : Seeded) : Prop where
  get : ∀ triple, tags[Tags.name bytes triple]? = seeded.get? triple
  named : ∀ name ∈ tags, [Tags.seededTagV1] <+: name → ∃ triple, Tags.name bytes triple = name

namespace Refines

open Tags

variable {bytes : CidBytes} {tags : Tags} {seeded : Seeded}

theorem congr (hrefines : Refines bytes tags seeded) {other : Seeded}
    (hget : ∀ triple, seeded.get? triple = other.get? triple) : Refines bytes tags other where
  get triple := (hrefines.get triple).trans (hget triple)
  named := hrefines.named

/-- A store whose names all stay clear of the version byte stands for no triples. -/
theorem of_foreign (hforeign : ∀ name ∈ tags, ¬ [seededTagV1] <+: name) :
    Refines bytes tags ∅ where
  get triple := by
    apply Std.ExtTreeMap.getElem?_eq_none
    exact fun hmem => hforeign _ hmem (seededTagV1_prefix_name triple)
  named name hname hversion := absurd hversion (hforeign name hname)

theorem insert (hrefines : Refines bytes tags seeded) (triple : Triple)
    (value : HashAndFormat) :
    Refines bytes (tags.insert (name bytes triple) value) (seeded.insert triple value) where
  get wanted := by
    rw [BTreeMap.getElem?_insert_eq_ite, IndexMap.get?_insert, hrefines.get wanted]
    simp only [name_injective.eq_iff]
  named found hfound hversion := by
    rcases Std.ExtTreeMap.mem_insert.mp hfound with hname | hname
    · exact ⟨triple, compare_eq_iff_eq.mp hname⟩
    · exact hrefines.named found hname hversion

theorem erase (hrefines : Refines bytes tags seeded) (triple : Triple) :
    Refines bytes (tags.erase (name bytes triple)) (seeded.shiftRemove triple) where
  get wanted := by
    rw [Std.ExtTreeMap.getElem?_erase, IndexMap.get?_shiftRemove, hrefines.get wanted]
    simp only [compare_eq_iff_eq, name_injective.eq_iff, eq_comm (a := triple)]
  named found hfound hversion :=
    hrefines.named found (Std.ExtTreeMap.mem_of_mem_erase hfound) hversion

theorem mem_iff (hrefines : Refines bytes tags seeded) (triple : Triple) :
    name bytes triple ∈ tags ↔ triple ∈ seeded.keys := by
  rw [← Std.ExtTreeMap.isSome_getElem?_iff_mem, hrefines.get triple, Option.isSome_iff_exists,
    IndexMap.mem_keys_iff]

/-- Listing a prefix yields the triples whose names start with it, each once. -/
theorem listPrefix (hrefines : Refines bytes tags seeded) (start : List Byte)
    (hstart : [seededTagV1] <+: start) :
    ∃ listed : List (Triple × HashAndFormat),
      tags.listPrefix start = listed.map (fun entry => (name bytes entry.1, entry.2)) ∧
      (listed.map Prod.fst).Nodup ∧
      ∀ triple value, (triple, value) ∈ listed ↔
        seeded.get? triple = some value ∧ start <+: name bytes triple := by
  have hmem : ∀ info : List Byte × HashAndFormat, info ∈ tags.listPrefix start ↔
      tags[info.1]? = some info.2 ∧ start <+: info.1 := by
    intro info
    rw [Tags.listPrefix, List.mem_filter, List.isPrefixOf_iff_prefix]
    exact and_congr_left fun _ => BTreeMap.mem_toList
  have hrange : tags.listPrefix start ∈ Set.range
      (List.map fun entry : Triple × HashAndFormat => (name bytes entry.1, entry.2)) := by
    rw [Set.range_list_map]
    intro info hinfo
    obtain ⟨hvalue, hinitial⟩ := (hmem info).mp hinfo
    have hname : info.1 ∈ tags := Std.ExtTreeMap.mem_iff_isSome_getElem?.mpr (by simp [hvalue])
    obtain ⟨triple, htriple⟩ := hrefines.named info.1 hname (hstart.trans hinitial)
    exact ⟨(triple, info.2), Prod.ext htriple rfl⟩
  obtain ⟨listed, hlisted⟩ := hrange
  refine ⟨listed, hlisted.symm, ?_, fun triple value => ?_⟩
  · have hnames : ((tags.listPrefix start).map Prod.fst).Nodup :=
      (List.filter_sublist.map Prod.fst).nodup (BTreeMap.nodup_keys_toList tags)
    rw [← hlisted, List.map_map] at hnames
    have hmap : listed.map (Prod.fst ∘ fun entry => (name bytes entry.1, entry.2)) =
        (listed.map Prod.fst).map (name bytes) := by
      rw [List.map_map]
      rfl
    rw [hmap] at hnames
    exact hnames.of_map
  · have hinfo := hmem (name bytes triple, value)
    rw [hrefines.get triple] at hinfo
    rw [← hinfo, ← hlisted, List.mem_map]
    constructor
    · intro hentry
      exact ⟨(triple, value), hentry, rfl⟩
    · rintro ⟨⟨triple', value'⟩, hentry, heq⟩
      obtain ⟨hname, rfl⟩ := Prod.mk.inj heq
      exact name_injective hname ▸ hentry

/-! ### The operations -/

theorem tagSeeded (hrefines : Refines bytes tags seeded) (triple : Triple) (hash : Hash) :
    match Tags.tagSeeded bytes tags triple.1 triple.2.1 triple.2.2 hash,
      seeded.tag triple hash with
    | .ok tags, .ok seeded => Refines bytes tags seeded
    | .error err, .error err' => err = err'
    | _, _ => False := by
  rw [Tags.tagSeeded, Seeded.tag]
  cases tagValue triple.2.2 hash with
  | error err => rfl
  | ok value => exact hrefines.insert triple value

theorem untagSeeded (hrefines : Refines bytes tags seeded) (triple : Triple) :
    (Tags.untagSeeded bytes tags triple.1 triple.2.1 triple.2.2).1 = (seeded.untag triple).1 ∧
      Refines bytes (Tags.untagSeeded bytes tags triple.1 triple.2.1 triple.2.2).2
        (seeded.untag triple).2 := by
  refine ⟨?_, hrefines.erase triple⟩
  have hmem := hrefines.mem_iff triple
  simp only [Tags.untagSeeded, Tags.delete, Seeded.untag, ← hmem, Tags.name]
  split <;> simp [*]

/-- Deleting the names of distinct triples of the set counts and removes them all. -/
theorem deleteAll (hrefines : Refines bytes tags seeded) {triples : List Triple}
    (hnodup : triples.Nodup) (hseeded : ∀ triple ∈ triples, triple ∈ seeded.keys) :
    (tags.deleteAll (triples.map (name bytes))).1 = triples.length ∧
      Refines bytes (tags.deleteAll (triples.map (name bytes))).2
        (seeded.retain fun triple => ¬ triple ∈ triples) := by
  induction triples using List.reverseRecOn with
  | nil =>
      refine ⟨rfl, hrefines.congr fun triple => ?_⟩
      rw [IndexMap.get?_retain_not, if_neg List.not_mem_nil]
  | append_singleton triples last ih =>
      rw [List.nodup_append] at hnodup
      have hlast : last ∉ triples := fun hmem => hnodup.2.2 last hmem last (by simp) rfl
      obtain ⟨hcount, hleft⟩ := ih hnodup.1 fun triple hmem =>
        hseeded triple (List.mem_append_left _ hmem)
      have hpresent : name bytes last ∈ (tags.deleteAll (triples.map (name bytes))).2 := by
        obtain ⟨value, hvalue⟩ := IndexMap.mem_keys_iff.mp (hseeded last (by simp))
        rw [hleft.mem_iff, IndexMap.mem_keys_iff]
        exact ⟨value, by rw [IndexMap.get?_retain_not, if_neg hlast, hvalue]⟩
      have hstep : tags.deleteAll ((triples ++ [last]).map (name bytes)) =
          ((tags.deleteAll (triples.map (name bytes))).1 + 1,
            (tags.deleteAll (triples.map (name bytes))).2.erase (name bytes last)) := by
        rw [Tags.deleteAll, List.map_append, List.foldl_append, ← Tags.deleteAll]
        simp only [List.map_cons, List.map_nil, List.foldl_cons, List.foldl_nil, Tags.delete,
          if_pos hpresent]
      rw [hstep]
      refine ⟨by rw [hcount, List.length_append]; rfl, (hleft.erase last).congr ?_⟩
      intro triple
      rw [IndexMap.get?_shiftRemove, IndexMap.get?_retain_not, IndexMap.get?_retain_not, ← ite_or]
      exact if_congr (by rw [List.mem_append, List.mem_singleton, or_comm]) rfl rfl

/-- The triples of the set that seed the content in the repository are those
the listing finds. -/
theorem keys_filter_perm {listed : List (Triple × HashAndFormat)} {rid : RepoId}
    (hnodup : (listed.map Prod.fst).Nodup)
    (hmem : ∀ triple value, (triple, value) ∈ listed ↔
      seeded.get? triple = some value ∧ seededRidPrefix rid <+: name bytes triple)
    (cid : Cid) :
    (seeded.keys.filter (Seeded.Seeds rid cid ·)).Perm
      ((listed.map Prod.fst).filter (Seeded.Seeds rid cid ·)) := by
  have hkeys : seeded.keys.Nodup := seeded.nodup_keys
  refine (List.perm_ext_iff_of_nodup (hkeys.filter _) (hnodup.filter _)).mpr ?_
  intro triple
  rw [List.mem_filter, List.mem_filter, decide_eq_true_eq]
  refine and_congr_left fun hseeds => ?_
  rw [IndexMap.mem_keys_iff, List.mem_map]
  constructor
  · rintro ⟨value, hvalue⟩
    exact ⟨(triple, value),
      (hmem triple value).mpr ⟨hvalue, (seededRidPrefix_prefix_iff rid triple).mpr hseeds.1⟩, rfl⟩
  · rintro ⟨⟨triple, value⟩, hentry, rfl⟩
    exact ⟨value, ((hmem triple value).mp hentry).1⟩

theorem untagAll (hrefines : Refines bytes tags seeded) (rid : RepoId) (cid : Cid) :
    (Tags.untagAll bytes tags rid cid).1 = (seeded.untagAll rid cid).1 ∧
      Refines bytes (Tags.untagAll bytes tags rid cid).2 (seeded.untagAll rid cid).2 := by
  obtain ⟨listed, hlisted, hnodup, hmem⟩ :=
    hrefines.listPrefix (seededRidPrefix rid) (by simp [seededRidPrefix])
  have hkeys := keys_filter_perm hnodup hmem cid
  have hnames : ((tags.listPrefix (seededRidPrefix rid)).map Prod.fst).filter
      (namesCid bytes cid) =
        ((listed.map Prod.fst).filter (Seeded.Seeds rid cid ·)).map (name bytes) := by
    have hmap : (tags.listPrefix (seededRidPrefix rid)).map Prod.fst =
        (listed.map Prod.fst).map (name bytes) := by
      rw [hlisted, List.map_map, List.map_map]
      rfl
    rw [hmap, List.filter_map]
    congr 1
    refine List.filter_congr fun triple htriple => ?_
    obtain ⟨⟨triple, value⟩, hentry, rfl⟩ := List.mem_map.mp htriple
    have hrid := (seededRidPrefix_prefix_iff rid triple).mp ((hmem triple value).mp hentry).2
    rw [Function.comp_apply, namesCid_name]
    simp only [Seeded.Seeds, hrid, true_and]
  rw [Tags.untagAll, hnames]
  obtain ⟨hcount, hleft⟩ := hrefines.deleteAll (hnodup.filter _) fun triple htriple =>
    (List.mem_filter.mp (hkeys.mem_iff.mpr htriple)).1
  refine ⟨hcount.trans hkeys.length_eq.symm, hleft.congr fun triple => ?_⟩
  rw [Seeded.untagAll, IndexMap.get?_retain_not, IndexMap.get?_retain_not]
  by_cases hseeded : triple ∈ seeded.keys
  · refine if_congr ?_ rfl rfl
    rw [← hkeys.mem_iff, List.mem_filter, decide_eq_true_eq]
    exact and_iff_right hseeded
  · rw [IndexMap.get?_eq_none_iff.mpr hseeded, ite_self, ite_self]

/-! ### The answers -/

theorem isSeeded (hrefines : Refines bytes tags seeded) (triple : Triple) :
    Tags.isSeeded bytes tags triple.1 triple.2.1 triple.2.2 = true ↔ triple ∈ seeded.keys := by
  rw [← hrefines.mem_iff]
  exact Std.ExtTreeMap.isSome_getElem?_iff_mem

theorem isSeededAny (hrefines : Refines bytes tags seeded) (rid : RepoId) (cid : Cid) :
    Tags.isSeededAny bytes tags rid cid = true ↔
      ∃ release, (rid, release, cid) ∈ seeded.keys := by
  obtain ⟨listed, hlisted, hnodup, hmem⟩ :=
    hrefines.listPrefix (seededRidPrefix rid) (by simp [seededRidPrefix])
  rw [Tags.isSeededAny, hlisted, List.any_map, List.any_eq_true]
  constructor
  · rintro ⟨⟨⟨rid', release, cid'⟩, value⟩, hentry, hcid⟩
    rw [Function.comp_apply, namesCid_name, decide_eq_true_eq] at hcid
    obtain ⟨hvalue, hinitial⟩ := (hmem _ value).mp hentry
    obtain rfl : rid' = rid := (seededRidPrefix_prefix_iff rid _).mp hinitial
    obtain rfl : cid' = cid := hcid
    exact ⟨release, IndexMap.mem_keys_iff.mpr ⟨value, hvalue⟩⟩
  · rintro ⟨release, hkey⟩
    obtain ⟨value, hvalue⟩ := IndexMap.mem_keys_iff.mp hkey
    refine ⟨((rid, release, cid), value),
      (hmem _ value).mpr ⟨hvalue, (seededRidPrefix_prefix_iff rid _).mpr rfl⟩, ?_⟩
    rw [Function.comp_apply, namesCid_name]
    exact decide_eq_true rfl

/-- Pushing releases one by one groups them by their content identifier, under the
hash of the first. -/
theorem get?_foldl_pushRelease (listed : List (Triple × HashAndFormat)) (cid : Cid) :
    (listed.foldl (fun out entry =>
        pushRelease out entry.1.2.1 entry.1.2.2 entry.2.hash) ∅).get? cid =
      (listed.filter (·.1.2.2 = cid)).head?.map fun first =>
        (first.2.hash, (listed.filter (·.1.2.2 = cid)).map (·.1.2.1)) := by
  induction listed using List.reverseRecOn with
  | nil => rfl
  | append_singleton listed last ih =>
      rw [List.foldl_append, List.foldl_cons, List.foldl_nil, List.filter_append]
      by_cases hlast : last.1.2.2 = cid
      · rw [hlast, pushRelease, ih, List.filter_singleton, decide_eq_true hlast, cond_true]
        cases listed.filter (·.1.2.2 = cid) with
        | nil => simp
        | cons first rest => simp
      · have hother : ∀ out : IndexMap Cid (Hash × List Oid),
            (pushRelease out last.1.2.1 last.1.2.2 last.2.hash).get? cid = out.get? cid := by
          intro out
          rw [pushRelease]
          split <;> rw [IndexMap.get?_insert, if_neg (Ne.symm hlast)]
        rw [hother, ih, List.filter_singleton, decide_eq_false hlast, cond_false, List.append_nil]

theorem seededCids (hrefines : Refines bytes tags seeded) (rid : RepoId) (cid : Cid) :
    seeded.Lists rid cid ((Tags.seededCids bytes tags rid).get? cid) := by
  obtain ⟨listed, hlisted, hnodup, hmem⟩ :=
    hrefines.listPrefix (seededRidPrefix rid) (by simp [seededRidPrefix])
  have hpushes : Tags.seededCids bytes tags rid = listed.foldl (fun out entry =>
      pushRelease out entry.1.2.1 entry.1.2.2 entry.2.hash) ∅ := by
    rw [Tags.seededCids, hlisted, List.foldl_map]
    simp only [parseSeededTag_name]
  have hrelease : ∀ entry, entry ∈ listed.filter (·.1.2.2 = cid) ↔
      ∃ release, entry.1 = (rid, release, cid) ∧ seeded.get? entry.1 = some entry.2 := by
    rintro ⟨⟨rid', release, cid'⟩, value⟩
    rw [List.mem_filter, hmem, seededRidPrefix_prefix_iff, decide_eq_true_eq]
    constructor
    · rintro ⟨⟨hvalue, rfl⟩, rfl⟩
      exact ⟨release, rfl, hvalue⟩
    · rintro ⟨release', heq, hvalue⟩
      obtain ⟨rfl, rfl, rfl⟩ := heq
      exact ⟨⟨hvalue, rfl⟩, rfl⟩
  have hown : ((listed.filter (·.1.2.2 = cid)).map Prod.fst).Nodup :=
    (List.filter_sublist.map Prod.fst).nodup hnodup
  rw [hpushes, get?_foldl_pushRelease]
  generalize listed.filter (·.1.2.2 = cid) = own at *
  have hreleases : (own.map (·.1.2.1)).Nodup := by
    have hmap : own.map (·.1.2.1) = (own.map Prod.fst).map (·.2.1) := by
      rw [List.map_map]
      rfl
    rw [hmap]
    refine hown.map_on ?_
    intro left hleft right hright heq
    obtain ⟨entry, hentry, rfl⟩ := List.mem_map.mp hleft
    obtain ⟨entry', hentry', rfl⟩ := List.mem_map.mp hright
    obtain ⟨release, htriple, -⟩ := (hrelease entry).mp hentry
    obtain ⟨release', htriple', -⟩ := (hrelease entry').mp hentry'
    rw [htriple, htriple'] at heq ⊢
    rw [show release = release' from heq]
  cases own with
  | nil =>
      intro release hkey
      obtain ⟨value, hvalue⟩ := IndexMap.mem_keys_iff.mp hkey
      exact List.not_mem_nil ((hrelease ((rid, release, cid), value)).mpr ⟨release, rfl, hvalue⟩)
  | cons first rest =>
      obtain ⟨release, hfirst, hvalue⟩ := (hrelease first).mp List.mem_cons_self
      refine ⟨hreleases, fun wanted => ?_, release, first.2.format, hfirst ▸ hvalue⟩
      rw [IndexMap.mem_keys_iff, List.mem_map]
      constructor
      · rintro ⟨entry, hentry, rfl⟩
        obtain ⟨release, htriple, hvalue⟩ := (hrelease entry).mp hentry
        rw [htriple] at hvalue ⊢
        exact ⟨entry.2, hvalue⟩
      · rintro ⟨value, hvalue⟩
        exact ⟨((rid, wanted, cid), value), (hrelease _).mpr ⟨wanted, rfl, hvalue⟩, rfl⟩

theorem allSeeded (hrefines : Refines bytes tags seeded) :
    (Tags.allSeeded bytes tags).Perm (seeded.entries.map fun entry =>
      (entry.1.1, entry.1.2.1, entry.1.2.2, entry.2.hash)) := by
  obtain ⟨listed, hlisted, hnodup, hmem⟩ :=
    hrefines.listPrefix [seededTagV1] List.prefix_rfl
  have hall : Tags.allSeeded bytes tags = listed.map fun entry =>
      (entry.1.1, entry.1.2.1, entry.1.2.2, entry.2.hash) := by
    rw [Tags.allSeeded, hlisted, List.filterMap_map, ← List.filterMap_eq_map]
    congr 1
    funext entry
    simp only [Function.comp_apply, parseSeededTag_name, Option.map_some]
  rw [hall]
  refine ((List.perm_ext_iff_of_nodup hnodup.of_map seeded.nodup_keys.of_map).mpr ?_).map _
  rintro ⟨triple, value⟩
  rw [hmem, ← IndexMap.get?_eq_some_iff_mem]
  exact and_iff_left (seededTagV1_prefix_name triple)

end Refines

/-! ## Sequences of calls -/

inductive Call where
  | tagSeeded (triple : Triple) (hash : Hash)
  | untagSeeded (triple : Triple)
  | untagAll (rid : RepoId) (cid : Cid)

inductive Returned where
  | tagged (result : Except ShareError Unit)
  | untagged (removed : Bool)
  | untaggedAll (removed : ℕ)

/-- A call that sets a tag; one that fails changes nothing. -/
def Returned.ofTagged {State : Type} (state : State) :
    Except ShareError State → Returned × State
  | .ok next => (.tagged (.ok ()), next)
  | .error err => (.tagged (.error err), state)

def Call.onTags (bytes : CidBytes) (tags : Tags) : Call → Returned × Tags
  | .tagSeeded (rid, release, cid) hash =>
      Returned.ofTagged tags (tags.tagSeeded bytes rid release cid hash)
  | .untagSeeded (rid, release, cid) =>
      let (removed, tags) := tags.untagSeeded bytes rid release cid
      (.untagged removed, tags)
  | .untagAll rid cid =>
      let (removed, tags) := tags.untagAll bytes rid cid
      (.untaggedAll removed, tags)

def Call.onSet (seeded : Seeded) : Call → Returned × Seeded
  | .tagSeeded triple hash => Returned.ofTagged seeded (seeded.tag triple hash)
  | .untagSeeded triple =>
      let (removed, seeded) := seeded.untag triple
      (.untagged removed, seeded)
  | .untagAll rid cid =>
      let (removed, seeded) := seeded.untagAll rid cid
      (.untaggedAll removed, seeded)

/-- What a sequence of calls returns, and the state it leaves. -/
def runCalls {State : Type} (perform : State → Call → Returned × State) :
    State → List Call → List Returned × State
  | state, [] => ([], state)
  | state, call :: calls =>
      let (returned, state) := perform state call
      let (rest, state) := runCalls perform state calls
      (returned :: rest, state)

section Calls

variable {bytes : CidBytes} {tags : Tags} {seeded : Seeded}

theorem Refines.call (hrefines : Refines bytes tags seeded) (call : Call) :
    (call.onTags bytes tags).1 = (call.onSet seeded).1 ∧
      Refines bytes (call.onTags bytes tags).2 (call.onSet seeded).2 := by
  cases call with
  | tagSeeded triple hash =>
      have htagged := hrefines.tagSeeded triple hash
      rw [Call.onTags, Call.onSet]
      cases htags : Tags.tagSeeded bytes tags triple.1 triple.2.1 triple.2.2 hash <;>
        cases hset : seeded.tag triple hash <;> rw [htags, hset] at htagged
      · exact ⟨by rw [htagged]; rfl, hrefines⟩
      · exact htagged.elim
      · exact htagged.elim
      · exact ⟨rfl, htagged⟩
  | untagSeeded triple =>
      obtain ⟨hremoved, hleft⟩ := hrefines.untagSeeded triple
      exact ⟨congrArg Returned.untagged hremoved, hleft⟩
  | untagAll rid cid =>
      obtain ⟨hremoved, hleft⟩ := hrefines.untagAll rid cid
      exact ⟨congrArg Returned.untaggedAll hremoved, hleft⟩

theorem Refines.runCalls (hrefines : Refines bytes tags seeded) (calls : List Call) :
    (Node.runCalls (Call.onTags bytes) tags calls).1 = (Node.runCalls Call.onSet seeded calls).1 ∧
      Refines bytes (Node.runCalls (Call.onTags bytes) tags calls).2
        (Node.runCalls Call.onSet seeded calls).2 := by
  induction calls generalizing tags seeded with
  | nil => exact ⟨rfl, hrefines⟩
  | cons call calls ih =>
      obtain ⟨hreturned, hnext⟩ := hrefines.call call
      obtain ⟨hrest, hfinal⟩ := ih hnext
      exact ⟨congrArg₂ List.cons hreturned hrest, hfinal⟩

/-- After any sequence of calls, on a store whose other names stay clear of the
version byte, the calls have returned and the queries answer what the set of
triples does; the names are injective, can be parsed, and the prefix of a
repository matches its own. -/
theorem seeded_tags_refine_set (bytes : CidBytes) {foreign : Tags}
    (hforeign : ∀ name ∈ foreign, ¬ [Tags.seededTagV1] <+: name) (calls : List Call) :
    let stored := runCalls (Call.onTags bytes) foreign calls
    let set := runCalls Call.onSet ∅ calls
    stored.1 = set.1 ∧
      (∀ rid release cid, Tags.isSeeded bytes stored.2 rid release cid = true ↔
        (rid, release, cid) ∈ set.2.keys) ∧
      (∀ rid cid, Tags.isSeededAny bytes stored.2 rid cid = true ↔
        ∃ release, (rid, release, cid) ∈ set.2.keys) ∧
      (∀ rid cid, set.2.Lists rid cid ((Tags.seededCids bytes stored.2 rid).get? cid)) ∧
      (Tags.allSeeded bytes stored.2).Perm (set.2.entries.map fun entry =>
        (entry.1.1, entry.1.2.1, entry.1.2.2, entry.2.hash)) ∧
      Function.Injective (fun triple : Triple =>
        Tags.seededTag bytes triple.1 triple.2.1 triple.2.2) ∧
      (∀ rid release cid, Tags.parseSeededTag bytes (Tags.seededTag bytes rid release cid) =
        some (rid, release, cid)) ∧
      (∀ rid rid' release cid,
        Tags.seededRidPrefix rid <+: Tags.seededTag bytes rid' release cid ↔ rid' = rid) := by
  intro stored set
  have hstart : Refines bytes foreign ∅ := .of_foreign hforeign
  obtain ⟨hreturned, hrefines⟩ := hstart.runCalls calls
  exact ⟨hreturned, fun rid release cid => hrefines.isSeeded (rid, release, cid),
    hrefines.isSeededAny, hrefines.seededCids, hrefines.allSeeded, Tags.name_injective,
    Tags.parseSeededTag_seededTag,
    fun rid rid' release cid => Tags.seededRidPrefix_prefix_iff rid (rid', release, cid)⟩

end Calls

/-- Beside a foreign tag, a release seeded and a whole repository unseeded: the
tag of the other repository, whose id repeats the version byte, remains. -/
theorem seeded_tags_refine_set_beside_foreign :
    let cid := blake3HashToCid (.filled 32 7) .blob
    let bytes := CidBytes.sample cid ([0x01, 0x55, 0x1e, 0x20] ++ List.replicate 32 7)
      (by decide)
    let foreign : Tags := (∅ : Tags).insert [0x61, 0x75, 0x74, 0x6f] ⟨.filled 32 9, .raw⟩
    let stored := runCalls (Call.onTags bytes) foreign
      [.tagSeeded (.filled 20 1, .filled 20 5, cid) (.filled 32 7),
        .tagSeeded (.filled 20 2, .filled 20 6, cid) (.filled 32 7),
        .untagAll (.filled 20 2) cid]
    stored.1 = [.tagged (.ok ()), .tagged (.ok ()), .untaggedAll 1] ∧
      Tags.isSeeded bytes stored.2 (.filled 20 1) (.filled 20 5) cid = true ∧
      Tags.isSeededAny bytes stored.2 (.filled 20 2) cid = false := by
  intro cid bytes foreign stored
  have hforeign : ∀ name ∈ foreign, ¬ [Tags.seededTagV1] <+: name := by
    intro name hname
    have hauto : name = [0x61, 0x75, 0x74, 0x6f] := by
      rcases Std.ExtTreeMap.mem_insert.mp hname with heq | hempty
      · exact (compare_eq_iff_eq.mp heq).symm
      · exact absurd hempty Std.ExtTreeMap.not_mem_empty
    rw [hauto]
    decide
  obtain ⟨hreturned, hseeded, hany, -⟩ := seeded_tags_refine_set bytes hforeign
    [.tagSeeded (.filled 20 1, .filled 20 5, cid) (.filled 32 7),
      .tagSeeded (.filled 20 2, .filled 20 6, cid) (.filled 32 7),
      .untagAll (.filled 20 2) cid]
  refine ⟨hreturned.trans rfl, (hseeded _ _ _).mpr (by decide), ?_⟩
  rw [← Bool.not_eq_true, hany]
  rintro ⟨release, hrelease⟩
  have hkeys : (.filled 20 2, release, cid) ∈ [((.filled 20 1, .filled 20 5, cid) : Triple)] :=
    hrelease
  have hrid : (.filled 20 2 : RepoId) = .filled 20 1 :=
    congrArg Prod.fst (List.mem_singleton.mp hkeys)
  exact absurd hrid (by decide)

end RadicleArtifact.Node
