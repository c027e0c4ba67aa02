import RadicleArtifact.Core.Collection
import RadicleArtifact.Library.FileTree
import RadicleArtifact.Library.Sorting

/-!
# Content ids of directories

A directory is identified by the collection of its files, in the order of their names.
The names are paths read lossily, so they are the same in whatever order the file
system lists the directories, but they tell paths apart only up to what is not UTF-8.
-/

namespace RadicleArtifact.Core

open RadicleArtifact.Library
open RadicleArtifact.Library.Utf8 (OsString)

/-- What the file system allows as a name. -/
structure AllowedName (name : OsString) : Prop where
  ne_nil : name ≠ []
  slash_notMem : 0x2f ∉ name
  nul_notMem : 0 ∉ name
  ne_dot : name ≠ [0x2e]
  ne_dotDot : name ≠ [0x2e, 0x2e]

instance (name : OsString) : Decidable (AllowedName name) :=
  decidable_of_iff
    (name ≠ [] ∧ 0x2f ∉ name ∧ 0 ∉ name ∧ name ≠ [0x2e] ∧ name ≠ [0x2e, 0x2e])
    ⟨fun ⟨hnil, hslash, hnul, hdot, hdotDot⟩ => ⟨hnil, hslash, hnul, hdot, hdotDot⟩,
      fun ⟨hnil, hslash, hnul, hdot, hdotDot⟩ => ⟨hnil, hslash, hnul, hdot, hdotDot⟩⟩

abbrev DirEntries := List (OsString × FileTree OsString (List UInt8))

/-- A directory as a file system lists it. -/
structure Directory where
  entries : DirEntries
  distinct : (FileTree.dir entries).Distinct
  allowed : ∀ file ∈ FileTree.filesIn entries, ∀ name ∈ file.1, AllowedName name

namespace Directory

def tree (directory : Directory) : FileTree OsString (List UInt8) :=
  .dir directory.entries

/-- The relative paths and bytes of the regular files. -/
def files (directory : Directory) : List (List OsString × List UInt8) :=
  directory.tree.files

theorem files_eq_filesIn (directory : Directory) :
    directory.files = FileTree.filesIn directory.entries :=
  FileTree.files_dir directory.entries

theorem path_ne_nil {directory : Directory} {file : List OsString × List UInt8}
    (hfile : file ∈ directory.files) : file.1 ≠ [] := by
  rw [files_eq_filesIn] at hfile
  obtain ⟨entry, -, rest, hpath, -⟩ := FileTree.mem_filesIn_iff.mp hfile
  simp [hpath]

end Directory

/-! ## The walk -/

/-- The name of a walked file, its path read lossily with `/` between components. -/
def relativeName (path : List OsString) : String :=
  "/".intercalate (path.map Utf8.lossy)

/-- The files of a tree by name, in the order of the walk. -/
def namedFiles (tree : FileTree OsString (List UInt8)) : List (String × List UInt8) :=
  tree.files.map fun file => (relativeName file.1, file.2)

/-- Sorted `(relative_name, contents)` pairs. -/
def canonicalWalk (tree : FileTree OsString (List UInt8)) : List (String × List UInt8) :=
  sortByKey Prod.fst (namedFiles tree)

/-- The walk with each file hashed. -/
def walkEntries (blake3 : Blake3) (tree : FileTree OsString (List UInt8)) :
    List (String × Hash) :=
  (canonicalWalk tree).map fun file => (file.1, blake3 file.2)

def computeContentId (blake3 : Blake3) (tree : FileTree OsString (List UInt8)) : Cid :=
  collectionCid blake3 (walkEntries blake3 tree)

def saturatingAdd (left right : ℕ) : ℕ :=
  min (left + right) (2 ^ 64 - 1)

theorem foldl_saturatingAdd {Item : Type*} (size : Item → ℕ) (items : List Item) {total : ℕ}
    (htotal : total ≤ 2 ^ 64 - 1) :
    items.foldl (fun total item => saturatingAdd total (size item)) total =
      min (total + (items.map size).sum) (2 ^ 64 - 1) := by
  induction items generalizing total with
  | nil => simpa using htotal
  | cons item items ih =>
      have hnext : saturatingAdd total (size item) ≤ 2 ^ 64 - 1 := min_le_right _ _
      rw [List.foldl_cons, ih hnext, saturatingAdd, List.map_cons, List.sum_cons]
      omega

/-- Length of a file, or sum of the lengths of the files of a directory. -/
def computeSizeFromPath : FileTree OsString (List UInt8) → ℕ
  | .dir entries =>
      (canonicalWalk (.dir entries)).foldl (fun sum file => saturatingAdd sum file.2.length) 0
  | .file contents => contents.length
  | .special _ => 0

/-- Files whose names read alike have the same bytes. -/
def ReadsApart (tree : FileTree OsString (List UInt8)) : Prop :=
  ∀ file ∈ namedFiles tree, ∀ other ∈ namedFiles tree, file.1 = other.1 → file = other

/-- The trees hold the same files. -/
def SameFiles (tree other : FileTree OsString (List UInt8)) : Prop :=
  ∀ file, file ∈ tree.files ↔ file ∈ other.files

theorem relativeName_singleton (name : OsString) : relativeName [name] = Utf8.lossy name := by
  rw [relativeName, List.map_singleton, String.intercalate_singleton]

theorem perm_namedFiles_of_reordered {tree listed : FileTree OsString (List UInt8)}
    (hlisted : tree.Reordered listed) : (namedFiles tree).Perm (namedFiles listed) :=
  hlisted.perm_files.map _

theorem canonicalWalk_eq_of_perm {tree other : FileTree OsString (List UInt8)}
    (hapart : ReadsApart tree) (hperm : (namedFiles tree).Perm (namedFiles other)) :
    canonicalWalk tree = canonicalWalk other :=
  sortByKey_eq_of_perm Prod.fst hapart hperm

/-- The walk depends on nothing but the files. -/
theorem canonicalWalk_eq_of_sameFiles {tree other : FileTree OsString (List UInt8)}
    (htree : tree.Distinct) (hother : other.Distinct) (hapart : ReadsApart tree)
    (hsame : SameFiles tree other) : canonicalWalk tree = canonicalWalk other := by
  have hfiles : tree.files.Perm other.files := by
    apply (List.perm_ext_iff_of_nodup ?_ ?_).mpr hsame
    · exact (FileTree.nodup_paths tree htree).of_map
    · exact (FileTree.nodup_paths other hother).of_map
  exact canonicalWalk_eq_of_perm hapart (hfiles.map _)

theorem perm_of_canonicalWalk_eq {tree other : FileTree OsString (List UInt8)}
    (hwalk : canonicalWalk tree = canonicalWalk other) :
    (namedFiles tree).Perm (namedFiles other) := by
  have hother := perm_sortByKey Prod.fst (namedFiles other)
  rw [← canonicalWalk, ← hwalk] at hother
  exact (perm_sortByKey Prod.fst (namedFiles tree)).symm.trans hother

/-- A file listed first comes first in the walk among the files of its name. -/
theorem exists_reordered_walk_first {tree : FileTree OsString (List UInt8)}
    {file : String × List UInt8} (hfile : file ∈ namedFiles tree) :
    ∃ listed, tree.Reordered listed ∧
      ((canonicalWalk listed).filter fun other => other.1 = file.1).head? = some file := by
  obtain ⟨found, hfound, rfl⟩ := List.mem_map.mp hfile
  obtain ⟨listed, rest, hlisted, hfirst⟩ := FileTree.exists_reordered_first tree hfound
  refine ⟨listed, hlisted, ?_⟩
  rw [canonicalWalk, filter_sortByKey, namedFiles, hfirst, List.map_cons,
    List.filter_cons_of_pos (by simp), List.head?_cons]

/-- The walk is canonical exactly when files that read alike have the same bytes. -/
theorem canonicalWalk_canonical_iff {tree : FileTree OsString (List UInt8)} :
    (∀ listed, tree.Reordered listed → canonicalWalk listed = canonicalWalk tree) ↔
      ReadsApart tree := by
  constructor
  · intro hcanonical file hfile other hother hname
    obtain ⟨listed, hlisted, hfirst⟩ := exists_reordered_walk_first hfile
    obtain ⟨later, hlater, hsecond⟩ := exists_reordered_walk_first hother
    rw [hcanonical listed hlisted] at hfirst
    rw [hcanonical later hlater, ← hname, hfirst] at hsecond
    exact Option.some.inj hsecond
  · intro hapart listed hlisted
    exact (canonicalWalk_eq_of_perm hapart (perm_namedFiles_of_reordered hlisted)).symm

/-! ## Identifying -/

/-- The byte strings that BLAKE3 sees when the tree is identified, in whatever order it
is listed. -/
def contentMessages (blake3 : Blake3) (tree : FileTree OsString (List UInt8)) :
    Set (List UInt8) :=
  {message | ∃ listed, tree.Reordered listed ∧
    (message ∈ listed.files.map Prod.snd ∨
      message ∈ collectionMessages blake3 (walkEntries blake3 listed))}

section Identify

variable {blake3 : Blake3} {messages : Set (List UInt8)}
  {tree other listed : FileTree OsString (List UInt8)}

theorem contents_mem_contentMessages (hlisted : tree.Reordered listed)
    {file : String × List UInt8} (hfile : file ∈ canonicalWalk listed) :
    file.2 ∈ contentMessages blake3 tree := by
  obtain ⟨found, hfound, rfl⟩ := List.mem_map.mp ((mem_sortByKey Prod.fst).mp hfile)
  exact ⟨listed, hlisted, .inl (List.mem_map.mpr ⟨found, hfound, rfl⟩)⟩

theorem collectionMessages_subset (hlisted : tree.Reordered listed) :
    collectionMessages blake3 (walkEntries blake3 listed) ⊆ contentMessages blake3 tree :=
  fun _ hmessage => ⟨listed, hlisted, .inr hmessage⟩

theorem walk_eq_of_walkEntries_eq {left right : List (String × List UInt8)}
    (hblake3 : Set.InjOn blake3 messages) (hleft : ∀ file ∈ left, file.2 ∈ messages)
    (hright : ∀ file ∈ right, file.2 ∈ messages)
    (heq : left.map (fun file => (file.1, blake3 file.2)) =
      right.map fun file => (file.1, blake3 file.2)) : left = right := by
  induction left generalizing right with
  | nil => exact (List.map_eq_nil_iff.mp heq.symm).symm
  | cons file left ih =>
      cases right with
      | nil => contradiction
      | cons other right =>
          obtain ⟨hfirst, hrest⟩ := List.cons.inj heq
          obtain ⟨hname, hhash⟩ := Prod.mk.inj hfirst
          obtain ⟨hfile, hlater⟩ := List.forall_mem_cons.mp hleft
          obtain ⟨hother, hafter⟩ := List.forall_mem_cons.mp hright
          rw [ih hlater hafter hrest, Prod.ext hname (hblake3 hfile hother hhash)]

/-- Where names tell files apart, one listing shows all that BLAKE3 sees. -/
theorem mem_contentMessages_of_readsApart (hapart : ReadsApart tree) {message : List UInt8}
    (hmessage : message ∈ contentMessages blake3 tree) :
    message ∈ tree.files.map Prod.snd ∨
      message ∈ collectionMessages blake3 (walkEntries blake3 tree) := by
  obtain ⟨listed, hlisted, hcontents | hcollection⟩ := hmessage
  · exact .inl ((hlisted.perm_files.map Prod.snd).mem_iff.mpr hcontents)
  · rw [walkEntries, ← canonicalWalk_eq_of_perm hapart (perm_namedFiles_of_reordered hlisted),
      ← walkEntries] at hcollection
    exact .inr hcollection

/-- An id is the walk it was computed from. -/
theorem canonicalWalk_eq_of_contentId_eq (hblake3 : Set.InjOn blake3 messages)
    (htree : contentMessages blake3 tree ⊆ messages)
    (hother : contentMessages blake3 other ⊆ messages) {later : FileTree OsString (List UInt8)}
    (hlisted : tree.Reordered listed) (hlater : other.Reordered later)
    (heq : computeContentId blake3 listed = computeContentId blake3 later) :
    canonicalWalk listed = canonicalWalk later := by
  have hentries := entries_eq_of_collectionCid_eq hblake3
    ((collectionMessages_subset hlisted).trans htree)
    ((collectionMessages_subset hlater).trans hother) heq
  exact walk_eq_of_walkEntries_eq hblake3
    (fun _ hfile => htree (contents_mem_contentMessages hlisted hfile))
    (fun _ hfile => hother (contents_mem_contentMessages hlater hfile)) hentries

/-- The order of the listing stays out of the id exactly when files that read alike have
the same bytes. -/
theorem contentId_listed_eq_iff (hblake3 : Set.InjOn blake3 (contentMessages blake3 tree)) :
    (∀ listed, tree.Reordered listed →
      computeContentId blake3 listed = computeContentId blake3 tree) ↔ ReadsApart tree := by
  rw [← canonicalWalk_canonical_iff]
  refine forall₂_congr fun listed hlisted => ⟨fun heq => ?_, fun hwalk => ?_⟩
  · exact canonicalWalk_eq_of_contentId_eq hblake3 subset_rfl subset_rfl hlisted
      (FileTree.Reordered.refl tree) heq
  · rw [computeContentId, walkEntries, hwalk, computeContentId, walkEntries]

/-- Equal ids name the same files up to how their names read. -/
theorem contentId_eq_iff (hblake3 : Set.InjOn blake3
      (contentMessages blake3 tree ∪ contentMessages blake3 other))
    (hapart : ReadsApart tree) :
    computeContentId blake3 tree = computeContentId blake3 other ↔
      (namedFiles tree).Perm (namedFiles other) := by
  constructor
  · intro heq
    exact perm_of_canonicalWalk_eq (canonicalWalk_eq_of_contentId_eq hblake3
      Set.subset_union_left Set.subset_union_right (FileTree.Reordered.refl tree)
      (FileTree.Reordered.refl other) heq)
  · intro hperm
    rw [computeContentId, walkEntries, canonicalWalk_eq_of_perm hapart hperm, computeContentId,
      walkEntries]

end Identify

/-! ## Names that are UTF-8 -/

/-- The parts of a name between its slashes. -/
def namePieces (name : String) : List String :=
  (name.toList.splitOn '/').map String.ofList

theorem namePieces_intercalate {texts : List String} (hne : texts ≠ [])
    (hslash : ∀ text ∈ texts, '/' ∉ text.toList) :
    namePieces ("/".intercalate texts) = texts := by
  have hlists : ∀ chars ∈ texts.map String.toList, '/' ∉ chars := by
    intro chars hchars
    obtain ⟨text, htext, rfl⟩ := List.mem_map.mp hchars
    exact hslash text htext
  have htoList : ("/".intercalate texts).toList = ['/'].intercalate (texts.map String.toList) :=
    String.toList_intercalate
  rw [namePieces, htoList, List.splitOn_intercalate '/' hlists (by simpa using hne),
    List.map_map]
  simp [Function.comp_def, String.ofList_toList]

theorem slash_mem_encode_iff {text : String} :
    (0x2f : UInt8) ∈ Utf8.encode text ↔ '/' ∈ text.toList := by
  rw [Utf8.encode, Utf8.ascii_mem_encodeChars (by decide)]
  constructor
  · rintro ⟨char, hchar, hval⟩
    obtain rfl : char = '/' := Char.ext (UInt32.toNat_inj.mp hval)
    exact hchar
  · intro hslash
    exact ⟨'/', hslash, rfl⟩

/-- A path whose components are UTF-8. -/
def UnicodePath (path : List OsString) : Prop :=
  ∀ name ∈ path, ∃ text, name = Utf8.encode text

theorem encode_lossy_of_unicode {path : List OsString} (hunicode : UnicodePath path) :
    (path.map Utf8.lossy).map Utf8.encode = path := by
  rw [List.map_map]
  refine (List.map_congr_left fun name hname => ?_).trans (List.map_id path)
  obtain ⟨text, rfl⟩ := hunicode name hname
  rw [Function.comp_apply, Utf8.lossy_encode, id]

/-- Nothing is lost of a path that is UTF-8. -/
theorem namePieces_relativeName {path : List OsString} (hne : path ≠ [])
    (hallowed : ∀ name ∈ path, AllowedName name) (hunicode : UnicodePath path) :
    namePieces (relativeName path) = path.map Utf8.lossy := by
  refine namePieces_intercalate (by simpa using hne) fun text htext hslash => ?_
  obtain ⟨name, hname, rfl⟩ := List.mem_map.mp htext
  obtain ⟨text, rfl⟩ := hunicode name hname
  rw [Utf8.lossy_encode, ← slash_mem_encode_iff] at hslash
  exact (hallowed _ hname).slash_notMem hslash

theorem relativeName_inj {path later : List OsString} (hne : path ≠ []) (hlater : later ≠ [])
    (hallowed : ∀ name ∈ path, AllowedName name) (hafter : ∀ name ∈ later, AllowedName name)
    (hunicode : UnicodePath path) (hother : UnicodePath later)
    (heq : relativeName path = relativeName later) : path = later := by
  have hpieces := namePieces_relativeName hne hallowed hunicode
  rw [heq, namePieces_relativeName hlater hafter hother] at hpieces
  rw [← encode_lossy_of_unicode hunicode, ← hpieces, encode_lossy_of_unicode hother]

namespace Directory

/-- Every file stands under names that are UTF-8. -/
def UnicodeNames (directory : Directory) : Prop :=
  ∀ file ∈ directory.files, UnicodePath file.1

theorem relativeName_inj_of_mem {directory other : Directory}
    (hunicode : directory.UnicodeNames) (hother : other.UnicodeNames)
    {file found : List OsString × List UInt8} (hfile : file ∈ directory.files)
    (hfound : found ∈ other.files) (heq : relativeName file.1 = relativeName found.1) :
    file.1 = found.1 :=
  relativeName_inj (path_ne_nil hfile) (path_ne_nil hfound)
    (directory.allowed file (directory.files_eq_filesIn ▸ hfile))
    (other.allowed found (other.files_eq_filesIn ▸ hfound)) (hunicode file hfile)
    (hother found hfound) heq

/-- The names tell the files of both directories apart. -/
def ReadsFaithfully (directory other : Directory) : Prop :=
  ReadsApart directory.tree ∧
    ((namedFiles directory.tree).Perm (namedFiles other.tree) →
      SameFiles directory.tree other.tree)

theorem readsApart_of_unicode {directory : Directory} (hunicode : directory.UnicodeNames) :
    ReadsApart directory.tree := by
  intro file hfile other hother hname
  obtain ⟨found, hfound, rfl⟩ := List.mem_map.mp hfile
  obtain ⟨later, hlater, rfl⟩ := List.mem_map.mp hother
  have hpath := relativeName_inj_of_mem hunicode hunicode hfound hlater hname
  have hdistinct := directory.distinct
  have hlookup := (FileTree.mem_files_iff hdistinct).mp hfound
  rw [hpath, (FileTree.mem_files_iff hdistinct).mp hlater] at hlookup
  rw [hpath, FileTree.file.inj (Option.some.inj hlookup)]

theorem mem_files_of_perm {directory other : Directory} (hunicode : directory.UnicodeNames)
    (hother : other.UnicodeNames)
    (hperm : (namedFiles directory.tree).Perm (namedFiles other.tree))
    {file : List OsString × List UInt8} (hfile : file ∈ directory.files) :
    file ∈ other.files := by
  have hnamed : (relativeName file.1, file.2) ∈ namedFiles other.tree :=
    hperm.mem_iff.mp (List.mem_map.mpr ⟨file, hfile, rfl⟩)
  obtain ⟨found, hfound, hsame⟩ := List.mem_map.mp hnamed
  obtain ⟨hname, hbytes⟩ := Prod.mk.inj hsame
  have hpath := relativeName_inj_of_mem hunicode hother hfile hfound hname.symm
  rwa [show file = found from Prod.ext hpath hbytes.symm]

theorem readsFaithfully_of_unicode {directory other : Directory}
    (hunicode : directory.UnicodeNames) (hother : other.UnicodeNames) :
    ReadsFaithfully directory other :=
  ⟨readsApart_of_unicode hunicode, fun hperm _ =>
    ⟨mem_files_of_perm hunicode hother hperm, mem_files_of_perm hother hunicode hperm.symm⟩⟩

end Directory

/-! ## Canonical ids -/

/-- The id of the directory does not depend on how it is listed, and another directory
with this id has the same files. -/
def CanonicalId (blake3 : Blake3) (directory other : Directory) : Prop :=
  (∀ listed, directory.tree.Reordered listed →
      computeContentId blake3 listed = computeContentId blake3 directory.tree) ∧
    (computeContentId blake3 directory.tree = computeContentId blake3 other.tree →
      SameFiles directory.tree other.tree)

theorem content_id_canonical_iff (blake3 : Blake3) (directory other : Directory)
    (hblake3 : Set.InjOn blake3
      (contentMessages blake3 directory.tree ∪ contentMessages blake3 other.tree)) :
    (CanonicalId blake3 directory other ↔ Directory.ReadsFaithfully directory other) ∧
      (directory.UnicodeNames → other.UnicodeNames → CanonicalId blake3 directory other) := by
  have hiff : CanonicalId blake3 directory other ↔ Directory.ReadsFaithfully directory other := by
    rw [CanonicalId, contentId_listed_eq_iff (hblake3.mono Set.subset_union_left),
      Directory.ReadsFaithfully]
    refine and_congr_right fun hapart => ?_
    rw [contentId_eq_iff hblake3 hapart]
  exact ⟨hiff, fun hunicode hother =>
    hiff.mpr (Directory.readsFaithfully_of_unicode hunicode hother)⟩

namespace Directory

/-- A directory with one file. -/
def single (name : OsString) (hname : AllowedName name) (contents : List UInt8) : Directory where
  entries := [(name, .file contents)]
  distinct := by simp [FileTree.distinct_dir_iff]
  allowed := by simpa [FileTree.filesIn_cons] using hname

theorem files_single (name : OsString) (hname : AllowedName name) (contents : List UInt8) :
    (single name hname contents).files = [([name], contents)] := by
  simp [files_eq_filesIn, single, FileTree.filesIn_cons]

theorem unicodeNames_single (text : String) (hname : AllowedName (Utf8.encode text))
    (contents : List UInt8) : (single (Utf8.encode text) hname contents).UnicodeNames := by
  simp [UnicodeNames, files_single, UnicodePath]

theorem namedFiles_single (name : OsString) (hname : AllowedName name) (contents : List UInt8) :
    namedFiles (single name hname contents).tree = [(Utf8.lossy name, contents)] := by
  rw [namedFiles, ← files, files_single, List.map_singleton, relativeName_singleton]

/-- One file and a directory of two, which are not listed by name. -/
def nestedEntries (first second third : List UInt8) : DirEntries :=
  [(Utf8.encode "docs", .dir [(Utf8.encode "b", .file second), (Utf8.encode "a", .file first)]),
    (Utf8.encode "app", .file third)]

theorem filesIn_nestedEntries (first second third : List UInt8) :
    FileTree.filesIn (nestedEntries first second third) =
      [([Utf8.encode "docs", Utf8.encode "b"], second),
        ([Utf8.encode "docs", Utf8.encode "a"], first), ([Utf8.encode "app"], third)] := rfl

def nested (first second third : List UInt8) : Directory where
  entries := nestedEntries first second third
  distinct := by
    have hdocs : Utf8.encode "docs" ≠ Utf8.encode "app" := by decide
    have hb : Utf8.encode "b" ≠ Utf8.encode "a" := by decide
    simp [nestedEntries, FileTree.distinct_dir_iff, hdocs, hb]
  allowed := by
    have hdocs : AllowedName (Utf8.encode "docs") := by decide
    have hb : AllowedName (Utf8.encode "b") := by decide
    have ha : AllowedName (Utf8.encode "a") := by decide
    have happ : AllowedName (Utf8.encode "app") := by decide
    simp [filesIn_nestedEntries, hdocs, hb, ha, happ]

theorem files_nested (first second third : List UInt8) :
    (nested first second third).files = FileTree.filesIn (nestedEntries first second third) :=
  files_eq_filesIn _

theorem namedFiles_nested (first second third : List UInt8) :
    namedFiles (nested first second third).tree =
      [("docs/b", second), ("docs/a", first), ("app", third)] := rfl

theorem canonicalWalk_nested (first second third : List UInt8) :
    canonicalWalk (nested first second third).tree =
      [("app", third), ("docs/a", first), ("docs/b", second)] := by
  have hdocs : ¬ "docs/b" ≤ "docs/a" := by decide
  rw [canonicalWalk, namedFiles_nested]
  simp [sortByKey, List.insertionSort, List.orderedInsert, hdocs]

theorem unicodeNames_nested (first second third : List UInt8) :
    (nested first second third).UnicodeNames := by
  simp [UnicodeNames, files_nested, filesIn_nestedEntries, UnicodePath]

end Directory

theorem allowedName_of_byte {byte : UInt8} (hslash : byte ≠ 0x2f) (hnul : byte ≠ 0)
    (hdot : byte ≠ 0x2e) : AllowedName [byte] where
  ne_nil := by simp
  slash_notMem := by simpa using hslash.symm
  nul_notMem := by simpa using hnul.symm
  ne_dot := by simpa using hdot
  ne_dotDot := by simp

theorem allowedName_app : AllowedName (Utf8.encode "app") := by decide

theorem length_collectionMeta_app : (collectionMeta ["app"]).length = 18 := by
  rw [collectionMeta, Postcard.seq, List.length_singleton, Postcard.varint_of_lt (by decide),
    List.flatMap_singleton, Postcard.string, Postcard.bytes, Postcard.varint_of_lt (by decide)]
  decide

/-- The lengths tell apart what is seen of one small file. -/
theorem injOn_lengthHash_app : Set.InjOn lengthHash
    (contentMessages lengthHash
      (Directory.single (Utf8.encode "app") allowedName_app [1]).tree) := by
  have hsingle := Directory.unicodeNames_single "app" allowedName_app [1]
  have hmessages : ∀ message ∈ contentMessages lengthHash
        (Directory.single (Utf8.encode "app") allowedName_app [1]).tree,
      message = [1] ∨ message = collectionMeta ["app"] ∨
        message = collectionRootBlob lengthHash [("app", lengthHash [1])] := by
    intro message hmessage
    have hone :=
      mem_contentMessages_of_readsApart (Directory.readsApart_of_unicode hsingle) hmessage
    rw [← Directory.files, Directory.files_single, walkEntries, canonicalWalk,
      Directory.namedFiles_single, Utf8.lossy_encode] at hone
    rcases hone with hcontents | rfl | rfl
    · exact .inl (List.mem_singleton.mp hcontents)
    · exact .inr (.inl rfl)
    · exact .inr (.inr rfl)
  have happ := length_collectionMeta_app
  apply injOn_numberHash
  · intro message hmessage
    rcases hmessages message hmessage with rfl | rfl | rfl <;>
      simp [happ, length_collectionRootBlob]
  · intro left hleft right hright hlength
    rcases hmessages left hleft with rfl | rfl | rfl <;>
      rcases hmessages right hright with rfl | rfl | rfl <;>
        simp [happ, length_collectionRootBlob] at hlength ⊢

theorem collectionMeta_nested :
    collectionMeta ["app", "docs/a", "docs/b"] =
      collectionHeader ++ [3, 3] ++ Utf8.encode "app" ++ [6] ++ Utf8.encode "docs/a" ++
        [6] ++ Utf8.encode "docs/b" := by
  simp only [collectionMeta, Postcard.seq, List.flatMap_cons, Postcard.string, Postcard.bytes]
  rw [Postcard.varint_of_lt (by decide), Postcard.varint_of_lt (by decide),
    Postcard.varint_of_lt (by decide), Postcard.varint_of_lt (by decide)]
  rfl

/-- The sums tell apart what is seen of two directories whose files have exchanged their
contents. -/
theorem injOn_rollingHash_nested : Set.InjOn rollingHash
    (contentMessages rollingHash (Directory.nested [1] [2] [3]).tree ∪
      contentMessages rollingHash (Directory.nested [2] [1] [3]).tree) := by
  let entries : List (String × Hash) :=
    [("app", rollingHash [3]), ("docs/a", rollingHash [1]), ("docs/b", rollingHash [2])]
  let exchanged : List (String × Hash) :=
    [("app", rollingHash [3]), ("docs/a", rollingHash [2]), ("docs/b", rollingHash [1])]
  have hmeta : rollingSum (collectionMeta ["app", "docs/a", "docs/b"]) = 143 := by
    rw [collectionMeta_nested]
    decide
  apply injOn_rollingHash [[1], [2], [3], collectionMeta ["app", "docs/a", "docs/b"],
    collectionRootBlob rollingHash entries, collectionRootBlob rollingHash exchanged]
    [1, 2, 3, 143, 246, 111] _ _ (by decide) (by decide)
  · have hseen : ∀ {first second : List UInt8} {message : List UInt8},
        message ∈ contentMessages rollingHash (Directory.nested first second [3]).tree →
          (message = second ∨ message = first ∨ message = [3]) ∨
            message = collectionMeta ["app", "docs/a", "docs/b"] ∨
              message = collectionRootBlob rollingHash [("app", rollingHash [3]),
                ("docs/a", rollingHash first), ("docs/b", rollingHash second)] := by
      intro first second message hmessage
      have hone := mem_contentMessages_of_readsApart (Directory.readsApart_of_unicode
        (Directory.unicodeNames_nested first second [3])) hmessage
      rw [walkEntries, Directory.canonicalWalk_nested, ← Directory.files, Directory.files_nested,
        Directory.filesIn_nestedEntries] at hone
      simpa [collectionMessages] using hone
    rintro message (hmessage | hmessage) <;>
      rcases hseen hmessage with (rfl | rfl | rfl) | rfl | rfl <;> simp [entries, exchanged]
  · simp only [List.map_cons, List.map_nil, hmeta, rollingSum_collectionRootBlob entries hmeta,
      rollingSum_collectionRootBlob exchanged hmeta]
    decide +kernel

/-- Two files of a directory have exchanged their contents. -/
theorem content_id_canonical_of_nested :
    CanonicalId rollingHash (.nested [1] [2] [3]) (.nested [2] [1] [3]) :=
  (content_id_canonical_iff rollingHash _ _ injOn_rollingHash_nested).2
    (Directory.unicodeNames_nested _ _ _) (Directory.unicodeNames_nested _ _ _)

/-- Two names that read as the replacement character. -/
def unreadable : Directory where
  entries := [([0xff], .file [1]), ([0xfe], .file [2])]
  distinct := by simp [FileTree.distinct_dir_iff]
  allowed := by
    simp only [FileTree.filesIn_cons, FileTree.files_file, FileTree.filesIn_nil, List.map_cons,
      List.map_nil, List.append_nil, List.singleton_append, List.forall_mem_cons]
    exact ⟨⟨allowedName_of_byte (by decide) (by decide) (by decide), by simp⟩,
      ⟨allowedName_of_byte (by decide) (by decide) (by decide), by simp⟩, by simp⟩

/-- Names that are not UTF-8 read alike: two directories get one id, and the id of one
directory depends on the order of its listing. -/
theorem lossy_names_share_id :
    (∃ directory other : Directory, ¬SameFiles directory.tree other.tree ∧
      ∀ blake3, computeContentId blake3 directory.tree = computeContentId blake3 other.tree) ∧
    ∀ blake3, Set.InjOn blake3 (contentMessages blake3 unreadable.tree) →
      ∃ listed, unreadable.tree.Reordered listed ∧
        computeContentId blake3 listed ≠ computeContentId blake3 unreadable.tree := by
  have hread : Utf8.lossy [0xff] = Utf8.lossy [0xfe] := by decide +kernel
  constructor
  · refine ⟨.single [0xff] (allowedName_of_byte (by decide) (by decide) (by decide)) [1],
      .single [0xfe] (allowedName_of_byte (by decide) (by decide) (by decide)) [1], ?_, ?_⟩
    · intro hsame
      have hfile := (hsame ([[0xff]], [1])).mp (by
        rw [← Directory.files, Directory.files_single]
        exact List.mem_singleton_self _)
      rw [← Directory.files, Directory.files_single] at hfile
      exact absurd hfile (by decide)
    · intro blake3
      rw [computeContentId, walkEntries, canonicalWalk, Directory.namedFiles_single, hread,
        computeContentId, walkEntries, canonicalWalk, Directory.namedFiles_single]
  · intro blake3 hblake3
    by_contra hcanonical
    push Not at hcanonical
    have hapart := (contentId_listed_eq_iff hblake3).mp hcanonical
    have hnamed : namedFiles unreadable.tree =
        [(relativeName [[0xff]], [1]), (relativeName [[0xfe]], [2])] := by
      simp [namedFiles, Directory.tree, unreadable, FileTree.filesIn_cons]
    have hsame := hapart (relativeName [[0xff]], [1]) (by simp [hnamed])
      (relativeName [[0xfe]], [2]) (by simp [hnamed])
      (by rw [relativeName_singleton, hread, relativeName_singleton])
    exact absurd (congrArg Prod.snd hsame) (by decide)

end RadicleArtifact.Core
