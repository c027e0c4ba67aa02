import RadicleArtifact.Library.Sorting
import RadicleArtifact.Node.Gc
import RadicleArtifact.Node.Status

/-!
# What the figures depend on

Two tag stores that name the same identifiers hold the same hashes, so the count is the same.
The bytes are the same unless some hash is seeded both as a blob and as a collection, of
different sizes: then a tag in a later repository changes which of the two is added.
-/

namespace RadicleArtifact.Node

open RadicleArtifact.Core
open RadicleArtifact.Library

variable {bytes : CidBytes}

/-- The two stores name the same identifiers. -/
def SameCids (left right : SeededTags bytes) : Prop :=
  ∀ cid, left.Names cid ↔ right.Names cid

section Properties

variable {blake3 : Blake3} (iroh : IrohStore blake3) (blobs : BlobStore blake3)
  (tags : SeededTags bytes)

/-- Over any two tag stores that name the same identifiers as the given one, the figures are
the same. -/
def FiguresFixed : Prop :=
  ∀ left right, SameCids tags left → SameCids tags right → ∀ stats stats',
    Reports iroh bytes blobs left.store stats → Reports iroh bytes blobs right.store stats' →
      stats = stats'

/-- Tagging a seeded identifier once more, under any repository and release, leaves the
figures. -/
def RetagKeeps : Prop :=
  ∀ other, SameCids tags other → ∀ rid release cid hash after, other.Names cid →
    cidToBlake3Hash cid = .ok hash →
      Tags.tagSeeded bytes other.store rid release cid hash = .ok after →
        ∀ stats stats', Reports iroh bytes blobs other.store stats →
          Reports iroh bytes blobs after stats' → stats = stats'

/-- A hash that is seeded both as a blob and as a collection has one size. -/
def OneSize : Prop :=
  ∀ hash, tags.Names (blake3HashToCid hash .blob) →
    tags.Names (blake3HashToCid hash .collection) →
      sizeAs iroh blobs hash .blob = sizeAs iroh blobs hash .collection

/-- The sum reaches its bound under whichever of its seeded identifiers each hash is counted. -/
def Saturates : Prop :=
  ∀ kinds : Hash → ArtifactKind,
    (∀ hash ∈ tags.hashes, tags.Names (blake3HashToCid hash (kinds hash))) →
      2 ^ 64 - 1 ≤ ∑ hash ∈ tags.hashes, sizeAs iroh blobs hash (kinds hash)

end Properties

/-! ## Where the figures agree -/

section Agree

variable {blake3 : Blake3} {iroh : IrohStore blake3} {blobs : BlobStore blake3}
  {tags left right : SeededTags bytes}

theorem SameCids.hashes_eq (hsame : SameCids left right) : left.hashes = right.hashes := by
  ext hash
  rw [SeededTags.mem_hashes_iff, SeededTags.mem_hashes_iff]
  exact exists_congr fun kind => hsame _

theorem OneSize.sizeAs_eq (hsize : OneSize iroh blobs tags) {hash : Hash}
    {kind kind' : ArtifactKind} (hkind : tags.Names (blake3HashToCid hash kind))
    (hkind' : tags.Names (blake3HashToCid hash kind')) :
    sizeAs iroh blobs hash kind = sizeAs iroh blobs hash kind' := by
  cases kind <;> cases kind'
  · rfl
  · exact hsize hash hkind hkind'
  · exact (hsize hash hkind' hkind).symm
  · rfl

theorem count_figures_eq (hsame : SameCids left right) :
    (left.figures iroh blobs).count = (right.figures iroh blobs).count := by
  rw [SeededTags.figures, SeededTags.figures, hsame.hashes_eq]

/-- A store that names the identifiers counts each hash under one of them. -/
theorem SameCids.names_countedAs (hsame : SameCids tags left) :
    ∀ hash ∈ tags.hashes, tags.Names (blake3HashToCid hash (left.countedAs hash)) := by
  intro hash hhash
  rw [hsame.hashes_eq] at hhash
  exact (hsame _).mpr (SeededTags.names_countedAs hhash)

theorem min_total_eq (hsizes : OneSize iroh blobs tags ∨ Saturates iroh blobs tags)
    (hleft : SameCids tags left) (hright : SameCids tags right) :
    min (left.total iroh blobs) (2 ^ 64 - 1) = min (right.total iroh blobs) (2 ^ 64 - 1) := by
  have hcounted := hleft.names_countedAs
  have hcounted' := hright.names_countedAs
  rw [SeededTags.total, SeededTags.total, ← hleft.hashes_eq, ← hright.hashes_eq]
  rcases hsizes with hone | hfull
  · have hsum : ∑ hash ∈ tags.hashes, sizeAs iroh blobs hash (left.countedAs hash) =
        ∑ hash ∈ tags.hashes, sizeAs iroh blobs hash (right.countedAs hash) := by
      apply Finset.sum_congr rfl
      intro hash hhash
      exact hone.sizeAs_eq (hcounted hash hhash) (hcounted' hash hhash)
    rw [hsum]
  · rw [min_eq_right (hfull _ hcounted), min_eq_right (hfull _ hcounted')]

theorem figures_eq (hsizes : OneSize iroh blobs tags ∨ Saturates iroh blobs tags)
    (hleft : SameCids tags left) (hright : SameCids tags right) :
    left.figures iroh blobs = right.figures iroh blobs := by
  rw [SeededTags.figures, SeededTags.figures, min_total_eq hsizes hleft hright,
    ← hleft.hashes_eq, ← hright.hashes_eq]

end Agree

/-! ## Tagging once more -/

section Retag

variable {tags : SeededTags bytes} {after : Tags} {rid : RepoId} {release : Oid} {cid : Cid}
  {hash : Hash}

theorem tagSeeded_eq_ok
    (htag : Tags.tagSeeded bytes tags.store rid release cid hash = .ok after) :
    ∃ value, tagValue cid hash = .ok value ∧
      after = tags.store.insert (Tags.seededTag bytes rid release cid) value := by
  rw [Tags.tagSeeded] at htag
  cases hvalue : tagValue cid hash with
  | error err =>
      rw [hvalue] at htag
      contradiction
  | ok value =>
      rw [hvalue] at htag
      exact ⟨value, rfl, (Except.ok.inj htag).symm⟩

theorem hashed_tagSeeded (hhash : cidToBlake3Hash cid = .ok hash)
    (htag : Tags.tagSeeded bytes tags.store rid release cid hash = .ok after) :
    after.Hashed bytes := by
  obtain ⟨value, hvalue, rfl⟩ := tagSeeded_eq_ok htag
  intro name found triple hfound hparse
  rw [BTreeMap.getElem?_insert_eq_ite] at hfound
  split at hfound
  · rename_i hname
    rw [hname, Tags.parseSeededTag_seededTag] at hparse
    rw [← Option.some.inj hparse, ← Option.some.inj hfound]
    exact hashAndFormat_eq_ok_iff.mpr ⟨hash, hhash, hvalue⟩
  · exact tags.hashed name found triple hfound hparse

/-- Tagging an identifier that is named already names no other. -/
theorem sameCids_tagSeeded (hnames : tags.Names cid) (hafter : after.Hashed bytes)
    (htag : Tags.tagSeeded bytes tags.store rid release cid hash = .ok after) :
    SameCids tags ⟨after, hafter⟩ := by
  obtain ⟨value, hvalue, rfl⟩ := tagSeeded_eq_ok htag
  have hread : (tags.store.insert (Tags.seededTag bytes rid release cid) value)[Tags.seededTag bytes
      rid release cid]? = some value := by
    rw [BTreeMap.getElem?_insert_eq_ite, if_pos rfl]
  have hnew : SeededTags.Names ⟨_, hafter⟩ cid :=
    ⟨rid, release, value.hash,
      mem_allSeeded.mpr ⟨_, value, hread, Tags.parseSeededTag_seededTag rid release cid, rfl⟩⟩
  intro wanted
  constructor
  · rintro ⟨rid', release', hash', hrow⟩
    obtain ⟨name, found, hfound, hparse, rfl⟩ := mem_allSeeded.mp hrow
    by_cases hname : name = Tags.seededTag bytes rid release cid
    · rw [hname, Tags.parseSeededTag_seededTag] at hparse
      obtain ⟨rfl, rfl, rfl⟩ := Option.some.inj hparse
      exact hnew
    · exact ⟨rid', release', found.hash, mem_allSeeded.mpr ⟨name, found,
        by rw [BTreeMap.getElem?_insert_eq_ite, if_neg hname, hfound], hparse, rfl⟩⟩
  · rintro ⟨rid', release', hash', hrow⟩
    obtain ⟨name, found, hfound, hparse, rfl⟩ := mem_allSeeded.mp hrow
    dsimp only at hfound
    rw [BTreeMap.getElem?_insert_eq_ite] at hfound
    split at hfound
    · rename_i hname
      rw [hname, Tags.parseSeededTag_seededTag] at hparse
      obtain ⟨rfl, rfl, rfl⟩ := Option.some.inj hparse
      exact hnames
    · exact ⟨rid', release', found.hash, mem_allSeeded.mpr ⟨name, found, hfound, hparse, rfl⟩⟩

theorem retagKeeps_of_figuresFixed {blake3 : Blake3} {iroh : IrohStore blake3}
    {blobs : BlobStore blake3} (hfixed : FiguresFixed iroh blobs tags) :
    RetagKeeps iroh blobs tags := by
  intro other hother rid release cid hash after hnames hhash htag
  have hafter := hashed_tagSeeded hhash htag
  have hsame := sameCids_tagSeeded hnames hafter htag
  exact hfixed other ⟨after, hafter⟩ hother fun cid => (hother cid).trans (hsame cid)

end Retag

/-! ## Tags in chosen repositories -/

/-- What one call of `tag_seeded` marks. -/
@[ext]
structure Seeding where
  rid : RepoId
  release : Oid
  hash : Hash
  kind : ArtifactKind

namespace Seeding

variable (seeding : Seeding)

def cid : Cid := blake3HashToCid seeding.hash seeding.kind

def triple : Triple := (seeding.rid, seeding.release, seeding.cid)

def value : HashAndFormat := Gc.ofKind seeding.hash seeding.kind

def name (bytes : CidBytes) : List Byte := Tags.name bytes seeding.triple

def call : Call := .tagSeeded seeding.triple seeding.hash

theorem hash_value : seeding.value.hash = seeding.hash := by
  rw [value]
  cases seeding.kind <;> rfl

variable {seeding} {other : Seeding}

theorem name_inj : seeding.name bytes = other.name bytes ↔ seeding = other := by
  constructor
  · intro hname
    have htriple : seeding.triple = other.triple := Tags.name_injective hname
    have hcid : seeding.cid = other.cid := congrArg (fun triple => triple.2.2) htriple
    obtain ⟨hhash, hkind⟩ := blake3HashToCid_inj.mp hcid
    exact Seeding.ext (congrArg Prod.fst htriple)
      (congrArg (fun triple => triple.2.1) htriple) hhash hkind
  · rintro rfl
    rfl

/-- The tags of a later repository are listed later. -/
theorem name_lt_name (hrid : seeding.rid < other.rid) :
    seeding.name bytes < other.name bytes := by
  have hlength : seeding.rid.toList.length = other.rid.toList.length := by
    rw [seeding.rid.length_toList, other.rid.length_toList]
  rw [name, name, Tags.name, Tags.name, Tags.seededTag_eq, Tags.seededTag_eq]
  simp only [triple, hlength, List.cons_append, List.cons_lt_cons_iff, lt_irrefl, false_or,
    true_and]
  exact append_lt_append hlength hrid _ _

end Seeding

/-- The tags that calls of `tag_seeded` leave in an empty store. -/
def Tags.ofSeedings (bytes : CidBytes) (seedings : List Seeding) : Tags :=
  seedings.foldl (fun tags seeding => tags.insert (seeding.name bytes) seeding.value) ∅

section Seedings

variable {seedings : List Seeding}

theorem ofSeedings_append_singleton (last : Seeding) :
    Tags.ofSeedings bytes (seedings ++ [last]) =
      (Tags.ofSeedings bytes seedings).insert (last.name bytes) last.value := by
  rw [Tags.ofSeedings, List.foldl_append]
  rfl

theorem tagSeeded_seeding (tags : Tags) (seeding : Seeding) :
    Tags.tagSeeded bytes tags seeding.rid seeding.release seeding.cid seeding.hash =
      .ok (tags.insert (seeding.name bytes) seeding.value) := by
  have hcontent : hashAndFormat seeding.cid = .ok seeding.value :=
    Gc.World.hashAndFormat_blake3HashToCid seeding.hash seeding.kind
  have hvalue := Gc.World.tagValue_of_hashAndFormat hcontent
  rw [Seeding.hash_value] at hvalue
  rw [Tags.tagSeeded, hvalue]
  rfl

theorem tagSeeded_ofSeedings (last : Seeding) :
    Tags.tagSeeded bytes (Tags.ofSeedings bytes seedings) last.rid last.release last.cid
      last.hash = .ok (Tags.ofSeedings bytes (seedings ++ [last])) := by
  rw [tagSeeded_seeding, ofSeedings_append_singleton]

theorem ownHash_call (seeding : Seeding) : seeding.call.OwnHash :=
  cidToBlake3Hash_blake3HashToCid seeding.hash seeding.kind

theorem onTags_call (tags : Tags) (seeding : Seeding) :
    seeding.call.onTags bytes tags =
      (.tagged (.ok ()), tags.insert (seeding.name bytes) seeding.value) :=
  congrArg (Returned.ofTagged tags) (tagSeeded_seeding tags seeding)

/-- The calls of the node leave these tags. -/
theorem runCalls_seedings :
    (runCalls (Call.onTags bytes) ∅ (seedings.map Seeding.call)).2 =
      Tags.ofSeedings bytes seedings := by
  rw [Tags.ofSeedings]
  generalize (∅ : Tags) = tags
  induction seedings generalizing tags with
  | nil => rfl
  | cons seeding seedings ih =>
      rw [List.map_cons, runCalls, onTags_call, List.foldl_cons, ← ih]

theorem getElem?_ofSeedings {name : List Byte} {value : HashAndFormat} :
    (Tags.ofSeedings bytes seedings)[name]? = some value ↔
      ∃ seeding ∈ seedings, seeding.name bytes = name ∧ seeding.value = value := by
  induction seedings using List.reverseRecOn with
  | nil => simp [Tags.ofSeedings]
  | append_singleton seedings last ih =>
      rw [ofSeedings_append_singleton, BTreeMap.getElem?_insert_eq_ite]
      by_cases hname : name = last.name bytes
      · rw [if_pos hname, Option.some.injEq]
        constructor
        · rintro rfl
          exact ⟨last, by simp, hname.symm, rfl⟩
        · rintro ⟨seeding, -, rfl, rfl⟩
          rw [Seeding.name_inj.mp hname]
      · rw [if_neg hname, ih]
        constructor
        · rintro ⟨seeding, hseeding, hfound⟩
          exact ⟨seeding, List.mem_append_left _ hseeding, hfound⟩
        · rintro ⟨seeding, hseeding, rfl, rfl⟩
          rcases List.mem_append.mp hseeding with hearlier | hlast
          · exact ⟨seeding, hearlier, rfl, rfl⟩
          · exact absurd (congrArg (Seeding.name · bytes) (List.mem_singleton.mp hlast)) hname

/-- A tag of the store that parses is one of the seedings. -/
theorem exists_seeding_of_parse {name : List Byte} {value : HashAndFormat} {triple : Triple}
    (hvalue : (Tags.ofSeedings bytes seedings)[name]? = some value)
    (hparse : Tags.parseSeededTag bytes name = some triple) :
    ∃ seeding ∈ seedings, seeding.name bytes = name ∧ seeding.triple = triple ∧
      seeding.value = value := by
  obtain ⟨seeding, hseeding, rfl, rfl⟩ := getElem?_ofSeedings.mp hvalue
  rw [Seeding.name, Tags.parseSeededTag_name] at hparse
  exact ⟨seeding, hseeding, rfl, Option.some.inj hparse, rfl⟩

variable (bytes seedings) in
def SeededTags.ofSeedings : SeededTags bytes where
  store := Tags.ofSeedings bytes seedings
  hashed := by
    have hown : ∀ call ∈ seedings.map Seeding.call, call.OwnHash :=
      List.forall_mem_map.mpr fun seeding _ => ownHash_call seeding
    rw [← runCalls_seedings]
    exact Tags.hashed_runCalls (fun _ hname => absurd hname Std.ExtTreeMap.not_mem_empty) hown

theorem mem_allSeeded_ofSeedings {rid : RepoId} {release : Oid} {cid : Cid} {hash : Hash} :
    (rid, release, cid, hash) ∈ (Tags.ofSeedings bytes seedings).allSeeded bytes ↔
      ∃ seeding ∈ seedings, seeding.triple = (rid, release, cid) ∧ seeding.hash = hash := by
  rw [mem_allSeeded]
  constructor
  · rintro ⟨name, value, hvalue, hparse, rfl⟩
    obtain ⟨seeding, hseeding, -, htriple, rfl⟩ := exists_seeding_of_parse hvalue hparse
    exact ⟨seeding, hseeding, htriple, seeding.hash_value.symm⟩
  · rintro ⟨seeding, hseeding, htriple, rfl⟩
    refine ⟨seeding.name bytes, seeding.value, ?_, ?_, seeding.hash_value⟩
    · exact getElem?_ofSeedings.mpr ⟨seeding, hseeding, rfl, rfl⟩
    · rw [Seeding.name, Tags.parseSeededTag_name, htriple]

theorem names_ofSeedings {cid : Cid} :
    (SeededTags.ofSeedings bytes seedings).Names cid ↔
      ∃ seeding ∈ seedings, seeding.cid = cid := by
  constructor
  · rintro ⟨rid, release, hash, hrow⟩
    obtain ⟨seeding, hseeding, htriple, -⟩ := mem_allSeeded_ofSeedings.mp hrow
    exact ⟨seeding, hseeding, congrArg (fun triple => triple.2.2) htriple⟩
  · rintro ⟨seeding, hseeding, rfl⟩
    exact ⟨seeding.rid, seeding.release, seeding.hash,
      mem_allSeeded_ofSeedings.mpr ⟨seeding, hseeding, rfl, rfl⟩⟩

/-- The listing is sorted by the names of the tags. -/
theorem pairwise_allSeeded_ofSeedings :
    ((Tags.ofSeedings bytes seedings).allSeeded bytes).Pairwise fun row row' =>
      Tags.seededTag bytes row.1 row.2.1 row.2.2.1 <
        Tags.seededTag bytes row'.1 row'.2.1 row'.2.2.1 := by
  have hnamed : ∀ info ∈ (Tags.ofSeedings bytes seedings).listPrefix [Tags.seededTagV1],
      ∀ triple, Tags.parseSeededTag bytes info.1 = some triple →
        Tags.name bytes triple = info.1 := by
    intro info hinfo triple hparse
    have hvalue := BTreeMap.mem_toList.mp (List.mem_of_mem_filter hinfo)
    obtain ⟨seeding, -, hname, rfl, -⟩ := exists_seeding_of_parse hvalue hparse
    exact hname
  have hsorted : ((Tags.ofSeedings bytes seedings).listPrefix [Tags.seededTagV1]).Pairwise
      fun info info' => info.1 < info'.1 := by
    apply List.Pairwise.sublist List.filter_sublist
    exact Std.ExtTreeMap.ordered_keys_toList.imp fun hlt => compare_lt_iff_lt.mp hlt
  rw [Tags.allSeeded, List.pairwise_filterMap]
  apply hsorted.imp_of_mem
  intro info info' hinfo hinfo' hlt row hrow row' hrow'
  obtain ⟨triple, hparse, rfl⟩ := Option.map_eq_some_iff.mp hrow
  obtain ⟨triple', hparse', rfl⟩ := Option.map_eq_some_iff.mp hrow'
  have hname : Tags.name bytes triple < Tags.name bytes triple' := by
    rw [hnamed info hinfo triple hparse, hnamed info' hinfo' triple' hparse']
    exact hlt
  exact hname

/-- A hash is counted under the kind of the greatest of its tags. -/
theorem countedAs_ofSeedings {seeding : Seeding} (hseeding : seeding ∈ seedings)
    (hgreatest : ∀ other ∈ seedings, other.hash = seeding.hash →
      other.name bytes ≤ seeding.name bytes) :
    (SeededTags.ofSeedings bytes seedings).countedAs seeding.hash = seeding.kind := by
  have hlast : (distinctSeeded bytes (Tags.ofSeedings bytes seedings)).get? seeding.hash =
      some seeding.cid := by
    rw [distinctSeeded, IndexMap.get?_collect, lastWrite, ← List.map_reverse, List.findSome?_map]
    refine lastWrite_of_pairwise pairwise_allSeeded_ofSeedings
      (mem_allSeeded_ofSeedings.mpr ⟨seeding, hseeding, rfl, rfl⟩) (if_pos rfl) ?_
    rintro ⟨rid, release, cid, hash⟩ hrow hwrites
    obtain ⟨other, hother, htriple, rfl⟩ := mem_allSeeded_ofSeedings.mp hrow
    have hsame : seeding.hash = other.hash := by
      by_contra hne
      exact hwrites (if_neg hne)
    have hname : Tags.seededTag bytes rid release cid = other.name bytes := by
      rw [Seeding.name, htriple, Tags.name]
    rw [hname]
    exact hgreatest other hother hsame.symm
  rw [SeededTags.countedAs, SeededTags.ofSeedings]
  dsimp only
  rw [hlast, Option.map_some, Seeding.cid, artifactKind_blake3HashToCid]

end Seedings

/-! ## Where the figures differ -/

section Rearranged

variable (tags : SeededTags bytes) (kinds : Hash → ArtifactKind)

/-- A seeding under some release of a repository of its own. -/
def seedingIn (repository : Byte) (hash : Hash) (kind : ArtifactKind) : Seeding :=
  ⟨.filled 20 repository, .filled 20 0, hash, kind⟩

/-- Every identifier in one repository, and in the next those that the hashes are to be
counted under. -/
def SeededTags.rearranged : List Seeding :=
  (tags.store.allSeeded bytes).filterMap (fun (_, _, cid, hash) =>
      (artifactKind cid).toOption.map (seedingIn 0 hash)) ++
    (tags.store.allSeeded bytes).map fun (_, _, _, hash) => seedingIn 1 hash (kinds hash)

/-- The kinds pick a seeded identifier of each hash. -/
def Picks : Prop :=
  ∀ hash ∈ tags.hashes, tags.Names (blake3HashToCid hash (kinds hash))

variable {tags kinds} {hash : Hash} {kind : ArtifactKind} {seeding : Seeding}

theorem name_seedingIn_lt {low high : Byte} (hlt : low < high) {other : Hash}
    {kind' : ArtifactKind} :
    (seedingIn low hash kind).name bytes < (seedingIn high other kind').name bytes := by
  apply Seeding.name_lt_name
  have hrows : low :: List.replicate 19 low < high :: List.replicate 19 high :=
    List.cons_lt_cons_iff.mpr (.inl hlt)
  exact hrows

theorem mem_rearranged :
    seeding ∈ tags.rearranged kinds ↔
      (∃ hash kind, tags.Names (blake3HashToCid hash kind) ∧ seeding = seedingIn 0 hash kind) ∨
        ∃ hash ∈ tags.hashes, seeding = seedingIn 1 hash (kinds hash) := by
  rw [SeededTags.rearranged, List.mem_append, List.mem_filterMap, List.mem_map]
  refine or_congr ⟨?_, ?_⟩ ⟨?_, ?_⟩
  · rintro ⟨⟨rid, release, cid, hash⟩, hrow, hseeding⟩
    obtain ⟨kind, hkind, rfl⟩ := Option.map_eq_some_iff.mp hseeding
    obtain ⟨kind', rfl⟩ := SeededTags.exists_kind_of_mem hrow
    rw [artifactKind_blake3HashToCid] at hkind
    obtain rfl := Option.some.inj hkind
    exact ⟨hash, kind', ⟨rid, release, hash, hrow⟩, rfl⟩
  · rintro ⟨hash, kind, ⟨rid, release, found, hrow⟩, rfl⟩
    obtain ⟨kind', heq⟩ := SeededTags.exists_kind_of_mem hrow
    obtain ⟨rfl, rfl⟩ := blake3HashToCid_inj.mp heq
    exact ⟨_, hrow, by simp [Except.toOption]⟩
  · rintro ⟨⟨rid, release, cid, hash⟩, hrow, rfl⟩
    exact ⟨hash, List.mem_toFinset.mpr (List.mem_map_of_mem hrow), rfl⟩
  · rintro ⟨hash, hhash, rfl⟩
    obtain ⟨row, hrow, rfl⟩ := List.mem_map.mp (List.mem_toFinset.mp hhash)
    exact ⟨row, hrow, rfl⟩

theorem sameCids_rearranged (hpicks : Picks tags kinds) :
    SameCids tags (.ofSeedings bytes (tags.rearranged kinds)) := by
  intro cid
  rw [names_ofSeedings]
  constructor
  · rintro ⟨rid, release, hash, hrow⟩
    obtain ⟨kind, rfl⟩ := SeededTags.exists_kind_of_mem hrow
    exact ⟨_, mem_rearranged.mpr (.inl ⟨hash, kind, ⟨rid, release, hash, hrow⟩, rfl⟩), rfl⟩
  · rintro ⟨seeding, hseeding, rfl⟩
    rcases mem_rearranged.mp hseeding with ⟨hash, kind, hnames, rfl⟩ | ⟨hash, hhash, rfl⟩
    · exact hnames
    · exact hpicks hash hhash

theorem name_le_of_mem_rearranged (hseeding : seeding ∈ tags.rearranged kinds) :
    seeding.name bytes ≤ (seedingIn 1 seeding.hash (kinds seeding.hash)).name bytes := by
  rcases mem_rearranged.mp hseeding with ⟨hash, kind, -, rfl⟩ | ⟨hash, -, rfl⟩
  · exact (name_seedingIn_lt (by decide)).le
  · exact le_rfl

theorem countedAs_rearranged (hhash : hash ∈ tags.hashes) :
    (SeededTags.ofSeedings bytes (tags.rearranged kinds)).countedAs hash = kinds hash := by
  apply countedAs_ofSeedings (mem_rearranged.mpr (.inr ⟨hash, hhash, rfl⟩))
  intro other hother hsame
  have hhash : other.hash = hash := hsame
  exact hhash ▸ name_le_of_mem_rearranged hother

/-- One more tag, in a repository after the others, decides how its hash is counted. -/
theorem countedAs_retagged {wanted : Hash} (hwanted : wanted ∈ tags.hashes) :
    (SeededTags.ofSeedings bytes
        (tags.rearranged kinds ++ [seedingIn 2 hash kind])).countedAs wanted =
      Function.update kinds hash kind wanted := by
  by_cases hsame : wanted = hash
  · subst hsame
    rw [Function.update_self]
    have hlast : seedingIn 2 wanted kind ∈ tags.rearranged kinds ++ [seedingIn 2 wanted kind] := by
      simp
    apply countedAs_ofSeedings hlast
    intro other hother _
    rcases List.mem_append.mp hother with hearlier | hlast
    · exact (name_le_of_mem_rearranged hearlier).trans (name_seedingIn_lt (by decide)).le
    · rw [List.mem_singleton.mp hlast]
  · rw [Function.update_of_ne hsame]
    have hchosen : seedingIn 1 wanted (kinds wanted) ∈ tags.rearranged kinds :=
      mem_rearranged.mpr (.inr ⟨wanted, hwanted, rfl⟩)
    apply countedAs_ofSeedings (List.mem_append_left _ hchosen)
    intro other hother hfound
    rcases List.mem_append.mp hother with hearlier | hlast
    · have hhash : other.hash = wanted := hfound
      exact hhash ▸ name_le_of_mem_rearranged hearlier
    · rw [List.mem_singleton.mp hlast] at hfound
      exact absurd hfound.symm hsame

end Rearranged

/-- Counting one key under another size changes a sum that stays below the bound. -/
theorem min_sum_update_ne {Key Kind : Type*} [DecidableEq Key] {keys : Finset Key}
    {size : Key → Kind → ℕ} {kinds : Key → Kind} {key : Key} {kind : Kind} (hkey : key ∈ keys)
    (hsize : size key kind ≠ size key (kinds key)) {bound : ℕ}
    (hbelow : ∑ found ∈ keys, size found (kinds found) < bound) :
    min (∑ found ∈ keys, size found (kinds found)) bound ≠
      min (∑ found ∈ keys, size found (Function.update kinds key kind found)) bound := by
  have hrest : ∑ found ∈ keys.erase key, size found (Function.update kinds key kind found) =
      ∑ found ∈ keys.erase key, size found (kinds found) := by
    apply Finset.sum_congr rfl
    intro found hfound
    rw [Function.update_of_ne (Finset.ne_of_mem_erase hfound)]
  have hbefore := Finset.add_sum_erase keys (fun found => size found (kinds found)) hkey
  have hafter := Finset.add_sum_erase keys
    (fun found => size found (Function.update kinds key kind found)) hkey
  simp only [Function.update_self] at hafter
  omega

/-! ### One hash under two kinds -/

section Pair

variable {blake3 : Blake3} {iroh : IrohStore blake3} {blobs : BlobStore blake3}
  {entries : DirEntries}

/-- As a blob, the root of a directory has a hash for each file and one for the names. -/
theorem sizeAs_rootHash_blob (hiroh : iroh.Lawful)
    (hseeded : HoldsFiles blobs (canonicalWalk (.dir entries))) :
    sizeAs iroh blobs (rootHash blake3 (.dir entries)) .blob =
      32 * ((canonicalWalk (.dir entries)).length + 1) := by
  rw [sizeAs, artifactSizeFor, artifactKind_blake3HashToCid]
  dsimp only
  rw [rootHash, walkEntries, blobSize_eq hiroh hseeded.root, length_collectionRootBlob,
    List.length_map]

theorem sizeAs_rootHash_collection (hiroh : iroh.Lawful)
    (hseeded : HoldsFiles blobs (canonicalWalk (.dir entries))) :
    sizeAs iroh blobs (rootHash blake3 (.dir entries)) .collection =
      computeSizeFromPath (.dir entries) :=
  artifactSizeFor_of_seeded hiroh hseeded

theorem hashes_ofSeedings {seedings : List Seeding} :
    (SeededTags.ofSeedings bytes seedings).hashes = (seedings.map Seeding.hash).toFinset := by
  ext hash
  rw [SeededTags.mem_hashes_iff, List.mem_toFinset, List.mem_map]
  constructor
  · rintro ⟨kind, hnames⟩
    obtain ⟨seeding, hseeding, hcid⟩ := names_ofSeedings.mp hnames
    exact ⟨seeding, hseeding, (blake3HashToCid_inj.mp hcid).1⟩
  · rintro ⟨seeding, hseeding, rfl⟩
    exact ⟨seeding.kind, names_ofSeedings.mpr ⟨seeding, hseeding, rfl⟩⟩

/-- A hash tagged under one kind and later under another is counted under the later. -/
theorem figures_pair (iroh : IrohStore blake3) (blobs : BlobStore blake3) (hash : Hash)
    (kind later : ArtifactKind) :
    (SeededTags.ofSeedings bytes [seedingIn 1 hash kind, seedingIn 2 hash later]).figures
      iroh blobs = ⟨1, .ofNat (min (sizeAs iroh blobs hash later) (2 ^ 64 - 1))⟩ := by
  have hcounted : (SeededTags.ofSeedings bytes
      [seedingIn 1 hash kind, seedingIn 2 hash later]).countedAs hash = later := by
    have hlast : seedingIn 2 hash later ∈ [seedingIn 1 hash kind, seedingIn 2 hash later] := by
      simp
    apply countedAs_ofSeedings hlast
    intro other hother _
    rcases List.mem_pair.mp hother with rfl | rfl
    · exact (name_seedingIn_lt (by decide)).le
    · exact le_rfl
  have hhashes : (SeededTags.ofSeedings bytes
      [seedingIn 1 hash kind, seedingIn 2 hash later]).hashes = {hash} := by
    rw [hashes_ofSeedings]
    simp [seedingIn]
  rw [SeededTags.figures, SeededTags.total, hhashes, Finset.sum_singleton, hcounted,
    Finset.card_singleton]
  rfl

end Pair

/-! ### The condition -/

section Differ

variable {blake3 : Blake3} {iroh : IrohStore blake3} {blobs : BlobStore blake3}
  {tags : SeededTags bytes}

theorem min_total_eq_of_figures_eq {left right : SeededTags bytes}
    (hfigures : left.figures iroh blobs = right.figures iroh blobs) :
    min (left.total iroh blobs) (2 ^ 64 - 1) = min (right.total iroh blobs) (2 ^ 64 - 1) := by
  have hbytes := congrArg (fun stats => stats.bytesLogical.toNat) hfigures
  simp only [SeededTags.figures, UInt64.toNat_ofNat'] at hbytes
  omega

theorem oneSize_or_saturates_of_retagKeeps (hkeeps : RetagKeeps iroh blobs tags) :
    OneSize iroh blobs tags ∨ Saturates iroh blobs tags := by
  by_contra hsizes
  rw [not_or, OneSize, Saturates] at hsizes
  push Not at hsizes
  obtain ⟨⟨hash, hblob, hcollection, hsize⟩, kinds, hpicks, hbelow⟩ := hsizes
  have hhash : hash ∈ tags.hashes := SeededTags.mem_hashes_iff.mpr ⟨.blob, hblob⟩
  obtain ⟨kind, hnames, hkind⟩ : ∃ kind, tags.Names (blake3HashToCid hash kind) ∧
      sizeAs iroh blobs hash kind ≠ sizeAs iroh blobs hash (kinds hash) := by
    cases hcounted : kinds hash with
    | blob => exact ⟨.collection, hcollection, hsize.symm⟩
    | collection => exact ⟨.blob, hblob, hsize⟩
  let before := SeededTags.ofSeedings bytes (tags.rearranged kinds)
  let after := SeededTags.ofSeedings bytes (tags.rearranged kinds ++ [seedingIn 2 hash kind])
  have hbefore : SameCids tags before := sameCids_rearranged hpicks
  have htag : Tags.tagSeeded bytes before.store (.filled 20 2) (.filled 20 0)
      (blake3HashToCid hash kind) hash = .ok after.store :=
    tagSeeded_ofSeedings (seedingIn 2 hash kind)
  have hafter : SameCids before after :=
    sameCids_tagSeeded ((hbefore _).mp hnames) after.hashed htag
  have hreported : Reports iroh bytes blobs after.store (after.figures iroh blobs) :=
    reports_iff.mpr rfl
  have hfigures := hkeeps before hbefore _ _ _ _ _ ((hbefore _).mp hnames)
    (cidToBlake3Hash_blake3HashToCid hash kind) htag _ _ (reports_iff.mpr rfl) hreported
  have htotal : before.total iroh blobs =
      ∑ found ∈ tags.hashes, sizeAs iroh blobs found (kinds found) := by
    rw [SeededTags.total, ← hbefore.hashes_eq]
    apply Finset.sum_congr rfl
    intro found hfound
    rw [countedAs_rearranged hfound]
  have htotal' : after.total iroh blobs =
      ∑ found ∈ tags.hashes, sizeAs iroh blobs found (Function.update kinds hash kind found) := by
    rw [SeededTags.total, ← hafter.hashes_eq, ← hbefore.hashes_eq]
    apply Finset.sum_congr rfl
    intro found hfound
    rw [countedAs_retagged hfound]
  apply min_sum_update_ne hhash hkind hbelow
  calc
    min (∑ found ∈ tags.hashes, sizeAs iroh blobs found (kinds found)) (2 ^ 64 - 1) =
        min (before.total iroh blobs) (2 ^ 64 - 1) := by rw [htotal]
    _ = min (after.total iroh blobs) (2 ^ 64 - 1) := min_total_eq_of_figures_eq hfigures
    _ = min (∑ found ∈ tags.hashes, sizeAs iroh blobs found
          (Function.update kinds hash kind found)) (2 ^ 64 - 1) := by rw [htotal']

/-- The figures depend on the seeded identifiers alone exactly when no hash is seeded both as
a blob and as a collection of another size, or the sum is at its bound in any case.  The count
always does. -/
theorem status_figures_iff (iroh : IrohStore blake3) (blobs : BlobStore blake3)
    (tags : SeededTags bytes) :
    (FiguresFixed iroh blobs tags ↔ OneSize iroh blobs tags ∨ Saturates iroh blobs tags) ∧
      (RetagKeeps iroh blobs tags ↔ OneSize iroh blobs tags ∨ Saturates iroh blobs tags) ∧
        ∀ other, SameCids tags other → ∀ stats stats',
          Reports iroh bytes blobs tags.store stats →
            Reports iroh bytes blobs other.store stats' → stats.count = stats'.count := by
  have hfixed : OneSize iroh blobs tags ∨ Saturates iroh blobs tags →
      FiguresFixed iroh blobs tags := by
    intro hsizes left right hleft hright stats stats' hstats hstats'
    rw [reports_iff.mp hstats, reports_iff.mp hstats']
    exact figures_eq hsizes hleft hright
  refine ⟨⟨fun h => ?_, hfixed⟩, ⟨oneSize_or_saturates_of_retagKeeps, fun h => ?_⟩, ?_⟩
  · exact oneSize_or_saturates_of_retagKeeps (retagKeeps_of_figuresFixed h)
  · exact retagKeeps_of_figuresFixed (hfixed h)
  · intro other hsame stats stats' hstats hstats'
    rw [reports_iff.mp hstats, reports_iff.mp hstats']
    exact count_figures_eq hsame

end Differ

/-- A directory of one file of one byte, and a file that holds the root of its collection: the
store reports one byte or sixty-four, as the repositories have it. -/
theorem figures_follow_last_tag :
    let directory := Directory.single (Utf8.encode "app") allowedName_app [1]
    let cid := computeContentId lengthHash directory.tree
    let root := rootHash lengthHash directory.tree
    let bytes := CidBytes.sample cid ([0x01, 0x80, 0x01, 0x1e, 0x20] ++ List.replicate 32 64)
      (by decide)
    let left := SeededTags.ofSeedings bytes [seedingIn 1 root .blob, seedingIn 2 root .collection]
    let right := SeededTags.ofSeedings bytes [seedingIn 1 root .collection, seedingIn 2 root .blob]
    ∃ blobs, importCollection .none (fun _ => "bagaaiera") (BlobStore.empty lengthHash)
        directory.tree cid = (blobs, .ok root) ∧
      SameCids left right ∧ Reports (.stored lengthHash) bytes blobs left.store ⟨1, 1⟩ ∧
        Reports (.stored lengthHash) bytes blobs right.store ⟨1, 64⟩ := by
  intro directory cid root bytes left right
  obtain ⟨blobs, himport, hseeded⟩ := importCollection_none (fun _ => "bagaaiera")
    (injOn_held_empty injOn_lengthHash_app)
  have hiroh := IrohStore.lawful_stored lengthHash
  have hcollection : sizeAs (.stored lengthHash) blobs root .collection = 1 :=
    (sizeAs_rootHash_collection hiroh hseeded).trans (by decide)
  have hblob : sizeAs (.stored lengthHash) blobs root .blob = 64 :=
    (sizeAs_rootHash_blob hiroh hseeded).trans (by decide)
  refine ⟨blobs, himport, ?_, ?_, ?_⟩
  · intro wanted
    rw [names_ofSeedings, names_ofSeedings]
    simp [seedingIn, Seeding.cid, or_comm]
  · rw [reports_iff, figures_pair, hcollection]
    rfl
  · rw [reports_iff, figures_pair, hblob]
    rfl

end RadicleArtifact.Node
