import RadicleArtifact.Node.Atomic
import RadicleArtifact.Node.Import

/-!
# Exporting what was imported

An export writes exactly the files that its members name.  The names of a walk lead back to
the paths they were made from, so a directory that was imported is exported as it was, and
gets the same content id.
-/

namespace RadicleArtifact.Node

open RadicleArtifact.Core
open RadicleArtifact.Library
open RadicleArtifact.Library.Disk
open RadicleArtifact.Library.Utf8 (OsString)

/-! ## Names of a walk -/

section Names

variable {path : Location}

/-- A name of the file system that is UTF-8 reads as a normal component. -/
theorem reads_normal {name : OsString} (hallowed : AllowedName name)
    (hunicode : ∃ text, name = Utf8.encode text) :
    Utf8.lossy name ≠ "" ∧ Utf8.lossy name ≠ "." ∧ Utf8.lossy name ≠ ".." := by
  obtain ⟨text, rfl⟩ := hunicode
  rw [Utf8.lossy_encode]
  refine ⟨?_, ?_, ?_⟩
  · rintro rfl
    exact hallowed.ne_nil rfl
  · rintro rfl
    exact hallowed.ne_dot (by decide)
  · rintro rfl
    exact hallowed.ne_dotDot (by decide)

theorem laterComponent_lossy {name : OsString} (hallowed : AllowedName name)
    (hunicode : ∃ text, name = Utf8.encode text) :
    laterComponent (Utf8.lossy name) = some (.normal (Utf8.lossy name)) := by
  obtain ⟨hempty, hdot, hparent⟩ := reads_normal hallowed hunicode
  simp [laterComponent, hempty, hdot, hparent]

theorem filterMap_laterComponent (hallowed : ∀ name ∈ path, AllowedName name)
    (hunicode : UnicodePath path) :
    (path.map Utf8.lossy).filterMap laterComponent =
      path.map fun name => .normal (Utf8.lossy name) := by
  rw [List.filterMap_map, ← List.filterMap_eq_map]
  apply List.filterMap_congr
  intro name hname
  exact laterComponent_lossy (hallowed name hname) (hunicode name hname)

/-- The components of a walked name are those of its path. -/
theorem components_relativeName (hne : path ≠ []) (hallowed : ∀ name ∈ path, AllowedName name)
    (hunicode : UnicodePath path) :
    components (relativeName path) = path.map fun name => .normal (Utf8.lossy name) := by
  have hpieces := namePieces_relativeName hne hallowed hunicode
  cases path with
  | nil => contradiction
  | cons name path =>
      obtain ⟨hname, hnames⟩ := List.forall_mem_cons.mp hallowed
      obtain ⟨htext, htexts⟩ := List.forall_mem_cons.mp hunicode
      obtain ⟨hempty, hdot, -⟩ := reads_normal hname htext
      rw [components, hpieces, List.map_cons, List.map_cons]
      simp [hempty, hdot, laterComponent_lossy hname htext,
        filterMap_laterComponent hnames htexts]

theorem staysBelow_relativeName (hne : path ≠ []) (hallowed : ∀ name ∈ path, AllowedName name)
    (hunicode : UnicodePath path) :
    (components (relativeName path)).all Component.staysBelow = true := by
  rw [components_relativeName hne hallowed hunicode]
  simp [Component.staysBelow]

/-- A walked name leads back to its path. -/
theorem joinName_relativeName (base : Location) (hne : path ≠ [])
    (hallowed : ∀ name ∈ path, AllowedName name) (hunicode : UnicodePath path) :
    joinName base (relativeName path) = ⟨base ++ path, true⟩ := by
  have hbelow : namesBelow (components (relativeName path)) = path := by
    rw [components_relativeName hne hallowed hunicode, namesBelow, List.filterMap_map]
    calc
      path.filterMap (fun name => some (Utf8.encode (Utf8.lossy name))) =
          (path.map Utf8.lossy).map Utf8.encode := by simp
      _ = path := encode_lossy_of_unicode hunicode
  rw [joinName, foldl_descend (staysBelow_relativeName hne hallowed hunicode), hbelow,
    namePieces_relativeName hne hallowed hunicode, List.getLast?_map,
    List.getLast?_eq_some_getLast hne]
  obtain ⟨hempty, hdot, hparent⟩ :=
    reads_normal (hallowed _ (List.getLast_mem hne)) (hunicode _ (List.getLast_mem hne))
  simp [hempty, hdot, hparent]

theorem hasNul_eq_false_iff : hasNul path = false ↔ ∀ name ∈ path, 0 ∉ name := by
  simp [hasNul, List.any_eq_false]

/-- The name of the staging path has no zero byte where the destination has none. -/
theorem hasNul_partialSibling {dest : Dest} (hnul : hasNul dest.path = false) :
    hasNul dest.partialSibling = false := by
  rw [hasNul_eq_false_iff, Dest.path, List.forall_mem_append, List.forall_mem_singleton] at hnul
  rw [hasNul_eq_false_iff, Dest.partialSibling, List.forall_mem_append,
    List.forall_mem_singleton]
  refine ⟨hnul.1, fun hmem => ?_⟩
  have hascii : (0 : UInt8) < 0x80 := by decide
  rw [Dest.partialName, Utf8.encode, Utf8.ascii_mem_encodeChars hascii] at hmem
  obtain ⟨char, hchar, hzero⟩ := hmem
  simp only [String.toList_append, List.mem_append, Utf8.lossy, String.toList_ofList] at hchar
  rcases hchar with (hdot | hname) | hsuffix
  · have hplain : ∀ char ∈ ".".toList, char.toNat ≠ 0 := by simp
    exact hplain char hdot hzero
  · exact hnul.2 (Utf8.ascii_mem_of_lossyChars hascii hname hzero)
  · have hplain : ∀ char ∈ ".rad-partial".toList, char.toNat ≠ 0 := by simp
    exact hplain char hsuffix hzero

end Names

/-! ## The files that an export leaves -/

section Files

variable {ctx : ExportCtx} {faults : Faults} {base path other : Location}
  {disk after : FileSystem} {index total : ℕ} {member : String × Hash}
  {members : List (String × Hash)} {contents found : List UInt8}

/-- A write adds one file and takes none away. -/
theorem Saved.file_iff (hfits : Fits faults disk path)
    (hsaved : Saved path contents disk after) :
    after.lookup other = some (.file found) ↔
      other = path ∧ found = contents ∨
        other ≠ path ∧ disk.lookup other = some (.file found) := by
  by_cases heq : other = path
  · subst heq
    simp [hsaved.saved, eq_comm]
  · simp only [heq, false_and, ne_eq, not_false_eq_true, true_and, false_or]
    by_cases habove : other <+: path
    · obtain ⟨entries, hentries⟩ := hsaved.above other habove heq
      refine iff_of_false (by simp [hentries]) fun hfile => ?_
      rcases hfits.above other habove heq with ⟨inner, hinner⟩ | ⟨hnone, -⟩
      · simp [hinner] at hfile
      · simp [hnone] at hfile
    · by_cases hbelow : path <+: other
      · refine iff_of_false (fun hfile => ?_) fun hfile => ?_
        · obtain ⟨entries, hentries⟩ := exists_dir_of_prefix hfile hbelow (Ne.symm heq)
          simp [hsaved.saved] at hentries
        · obtain ⟨entries, hentries⟩ := exists_dir_of_prefix hfile hbelow (Ne.symm heq)
          rcases hfits.free with hnone | ⟨left, hleft⟩
          · simp [hnone] at hentries
          · simp [hleft] at hentries
      · rw [hsaved.beside other hbelow habove]

/-- The bytes that the members add to a total. -/
def exportedBytes (ctx : ExportCtx) (total : ℕ) (members : List (String × Hash)) : ℕ :=
  members.foldl
    (fun total member => saturatingAdd total ((ctx.bytes member.2).getD []).length) total

/-- The files after the members are exported at places of their own. -/
structure Exported (ctx : ExportCtx) (base : Location) (members : List (String × Hash))
    (disk after : FileSystem) : Prop where
  file_iff : ∀ other found, after.lookup other = some (.file found) ↔
    (∃ member ∈ members, placeOf base member = other ∧ ctx.bytes member.2 = some found) ∨
      (∀ member ∈ members, placeOf base member ≠ other) ∧
        disk.lookup other = some (.file found)

theorem Exported.cons {saved : FileSystem} (hbytes : ctx.bytes member.2 = some contents)
    (hfits : Fits faults disk (placeOf base member))
    (hsaved : Saved (placeOf base member) contents disk saved)
    (hother : ∀ later ∈ members, placeOf base later ≠ placeOf base member)
    (hexported : Exported ctx base members saved after) :
    Exported ctx base (member :: members) disk after where
  file_iff other found := by
    rw [hexported.file_iff, hsaved.file_iff hfits, List.exists_mem_cons_iff,
      List.forall_mem_cons, hbytes]
    by_cases heq : other = placeOf base member
    · subst heq
      simp only [ne_eq, not_true_eq_false, false_and, or_false, true_and, Option.some.injEq]
      have hnone : ¬ ∃ later ∈ members, placeOf base later = placeOf base member ∧
          ctx.bytes later.2 = some found := by
        rintro ⟨later, hlater, hplace, -⟩
        exact hother later hlater hplace
      simp only [hnone, false_or, or_false]
      exact ⟨fun hfound => hfound.2.symm, fun hfound => ⟨hother, hfound.symm⟩⟩
    · have hne : placeOf base member ≠ other := Ne.symm heq
      simp [heq, hne]

/-- What a loop over exportable members does. -/
theorem exportMembers_of_exportable
    (hexportable : Exportable ctx faults base index disk members)
    (hplaces : (members.map (placeOf base)).Nodup) :
    ∃ after, exportMembers ctx faults base index total disk members =
        (after, .ok (exportedBytes ctx total members)) ∧
      Exported ctx base members disk after := by
  induction members generalizing index total disk with
  | nil => exact ⟨disk, rfl, ⟨by simp⟩⟩
  | cons member members ih =>
      have hready := hexportable.ready (member, index) (by simp [List.zipIdx_cons])
      have hfits := hexportable.fits member List.mem_cons_self
      obtain ⟨contents, hbytes⟩ := Option.isSome_iff_exists.mp hready.complete
      obtain ⟨saved, hmember, hsaved⟩ := exportMember_of_fits hready hfits hbytes
      obtain ⟨hplace, hrest⟩ := List.nodup_cons.mp hplaces
      have hlater := ((exportable_cons_iff hfits hsaved).mp hexportable).2
      have hrun := @ih saved (index + 1) (saturatingAdd total contents.length) hlater hrest
      obtain ⟨after, hmembers, hexported⟩ := hrun
      refine ⟨after, ?_, hexported.cons hbytes hfits hsaved fun later hmem heq => ?_⟩
      · rw [exportMembers, hmember]
        simp only [hmembers, exportedBytes, List.foldl_cons, hbytes, Option.getD_some]
      · exact hplace (List.mem_map.mpr ⟨later, hmem, heq⟩)

end Files

/-! ## Directories that list no name twice -/

section Distinct

variable {ctx : ExportCtx} {faults : Faults} {base path : Location} {disk : FileSystem}
  {index total : ℕ} {hash : Hash} {member : String × Hash} {members : List (String × Hash)}

theorem distinct_createDirAll (hdisk : disk.tree.Distinct) :
    (createDirAll faults disk path).1.tree.Distinct := by
  rw [createDirAll]
  split
  · exact hdisk
  · exact distinct_createDirs hdisk

theorem distinct_exportStreamed (hdisk : disk.tree.Distinct) (target : Target) :
    (exportStreamed ctx faults index disk hash target).1.tree.Distinct := by
  rw [exportStreamed_fst]
  rcases writeBlob_cases ctx faults index disk hash target with hsame | ⟨contents, hwritten⟩
  · rw [hsame]
    exact distinct_createDirAll hdisk
  · rw [hwritten]
    exact distinct_write (distinct_createDirAll hdisk)

theorem distinct_exportMember (hdisk : disk.tree.Distinct) :
    (exportMember ctx faults base index disk member).1.tree.Distinct := by
  rw [exportMember]
  cases safeJoin base member.1 with
  | none => exact hdisk
  | some target =>
      have hmade : (createDirAll faults disk target.location.dropLast).1.tree.Distinct :=
        distinct_createDirAll hdisk
      dsimp only
      rcases hresult : createDirAll faults disk target.location.dropLast with ⟨made, result⟩
      rw [hresult] at hmade
      cases result with
      | error err => exact hmade
      | ok created =>
          have hexported := @distinct_exportStreamed ctx faults made index member.2 hmade target
          dsimp only
          rcases houtcome : exportStreamed ctx faults index made member.2 target with
            ⟨after, outcome⟩
          rw [houtcome] at hexported
          cases outcome <;> exact hexported

theorem distinct_exportMembers (hdisk : disk.tree.Distinct) :
    (exportMembers ctx faults base index total disk members).1.tree.Distinct := by
  induction members generalizing index total disk with
  | nil => exact hdisk
  | cons member members ih =>
      have hmember : (exportMember ctx faults base index disk member).1.tree.Distinct :=
        distinct_exportMember hdisk
      rw [exportMembers]
      rcases hresult : exportMember ctx faults base index disk member with ⟨after, result⟩
      rw [hresult] at hmember
      cases result with
      | error err => exact hmember
      | ok bytes => exact ih hmember

end Distinct

/-! ## A fresh destination -/

/-- Nothing stands at the destination, and nothing in the way. -/
structure Fresh (disk : FileSystem) (dest : Dest) : Prop where
  distinct : disk.tree.Distinct
  above : ∀ above, above <+: dest.parent → IsDirAt disk above ∨ disk.lookup above = none
  free : disk.lookup dest.path = none
  staging : disk.lookup dest.partialSibling = none ∨ IsDirAt disk dest.partialSibling
  noNul : hasNul dest.path = false

section FreshDest

variable {disk : FileSystem} {dest : Dest}

theorem removeDirAll_cases_of_staging (hfresh : Fresh disk dest) :
    (disk.lookup dest.partialSibling = none ∧
        (disk.removeDirAll Faults.none.remove dest.partialSibling).1 = disk) ∨
      (IsDirAt disk dest.partialSibling ∧
        (disk.removeDirAll Faults.none.remove dest.partialSibling).1 =
          disk.erase dest.partialSibling) := by
  rcases hfresh.staging with hnone | ⟨entries, hentries⟩
  · exact .inl ⟨hnone, by simp [removeDirAll, hnone]⟩
  · have hgone : FileTree.removeTree Faults.none.remove dest.partialSibling (.dir entries) =
        none := FileTree.removeTree_eq_none_iff.mpr fun _ _ => rfl
    exact .inr ⟨⟨entries, hentries⟩, by simp [removeDirAll, hentries, hgone]⟩

/-- The staging path is cleared, and the destination stays fresh. -/
theorem Fresh.cleared (hfresh : Fresh disk dest) :
    Fresh (disk.removeDirAll Faults.none.remove dest.partialSibling).1 dest ∧
      (disk.removeDirAll Faults.none.remove dest.partialSibling).1.lookup dest.partialSibling =
        none := by
  have hdistinct : (disk.removeDirAll Faults.none.remove dest.partialSibling).1.tree.Distinct :=
    distinct_removeDirAll hfresh.distinct
  rcases removeDirAll_cases_of_staging hfresh with ⟨hnone, hsame⟩ | ⟨hdir, herase⟩
  · rw [hsame]
    exact ⟨hfresh, hnone⟩
  · rw [herase] at hdistinct ⊢
    have hgone := lookup_erase_self disk dest.partialSibling_ne_nil
    refine ⟨⟨hdistinct, fun above habove => .inl ?_, ?_, .inl hgone,
      hfresh.noNul⟩, hgone⟩
    · have hinitial : above <+: dest.partialSibling := habove.trans (List.prefix_append _ _)
      have hne : above ≠ dest.partialSibling := by
        rintro rfl
        simpa [Dest.partialSibling] using habove.length_le
      obtain ⟨entries, hentries⟩ := isDirAt_of_above hdir hinitial
      rw [IsDirAt, Disk.lookup, tree_erase]
      exact FileTree.isDir_lookup_erase hinitial hne hentries
    · rw [lookup_dest_of_agree (agreeBeside_erase disk dest.partialSibling)]
      exact hfresh.free

/-- The staging directory as it was just made. -/
structure Staged (disk made : FileSystem) (dest : Dest) : Prop where
  created : createDirAll Faults.none disk dest.partialSibling = (made, .ok ())
  dir : IsDirAt made dest.partialSibling
  below : ∀ rest, rest ≠ [] → made.lookup (dest.partialSibling ++ rest) = none
  free : made.lookup dest.path = none
  distinct : made.tree.Distinct

theorem Fresh.staged (hfresh : Fresh disk dest)
    (hnone : disk.lookup dest.partialSibling = none) : ∃ made, Staged disk made dest := by
  have hnul := hasNul_partialSibling hfresh.noNul
  have hcreated := created_createDirAll Faults.none.mkdir disk dest.partialSibling
  have hcreatable : Creatable Faults.none.mkdir disk dest.partialSibling := by
    intro above habove
    rcases List.prefix_concat_iff.mp habove with hself | hparent
    · exact .inr ⟨by rw [hself]; exact hnone, rfl⟩
    · exact (hfresh.above above hparent).imp_right fun hmissing => ⟨hmissing, rfl⟩
  have hok := hcreated.ok_iff.mpr hcreatable
  have heq : createDirAll Faults.none disk dest.partialSibling =
      disk.createDirAll Faults.none.mkdir dest.partialSibling := by
    rw [createDirAll, if_neg (by simp [hnul])]
  refine ⟨(createDirAll Faults.none disk dest.partialSibling).1, ?_, ?_, ?_, ?_, ?_⟩
  · exact Prod.ext rfl (by rw [heq, hok])
  · exact isDirAt_of_making (by rw [heq, hok])
  · intro rest hrest
    have hbeside : ¬ dest.partialSibling ++ rest <+: dest.partialSibling := by
      intro hinitial
      have hlength := hinitial.length_le
      rw [List.length_append] at hlength
      exact hrest (List.length_eq_zero_iff.mp (by omega))
    rw [heq, hcreated.frame _ hbeside, Disk.lookup, FileTree.lookup_append, ← Disk.lookup, hnone,
      Option.bind_none]
  · have hagree : AgreeBeside dest.partialSibling disk
        (createDirAll Faults.none disk dest.partialSibling).1 :=
      agreeBeside_making (List.prefix_append dest.partialSibling [])
    rw [lookup_dest_of_agree hagree]
    exact hfresh.free
  · exact distinct_createDirAll hfresh.distinct

end FreshDest

/-! ## The members of an imported directory -/

/-- What an export reads from the store. -/
def exportCtx {blake3 : Blake3} (iroh : IrohStore blake3) (store : BlobStore blake3)
    (debugText : String → String) : ExportCtx where
  load := iroh.load store
  bytes := store.bytes
  debugText := debugText

section Members

variable {blake3 : Blake3} {iroh : IrohStore blake3} {store : BlobStore blake3}
  {debugText : String → String} {directory : Directory} {disk made : FileSystem} {dest : Dest}

theorem perm_walkEntries (blake3 : Blake3) (tree : FileTree OsString (List UInt8)) :
    (walkEntries blake3 tree).Perm
      (tree.files.map fun file => (relativeName file.1, blake3 file.2)) := by
  have hwalk : (canonicalWalk tree).Perm (namedFiles tree) := perm_sortByKey Prod.fst _
  have hhashed := hwalk.map fun file => (file.1, blake3 file.2)
  rwa [namedFiles, List.map_map] at hhashed

theorem mem_walkEntries_iff {member : String × Hash} :
    member ∈ walkEntries blake3 directory.tree ↔
      ∃ file ∈ directory.files, (relativeName file.1, blake3 file.2) = member := by
  rw [(perm_walkEntries blake3 directory.tree).mem_iff, List.mem_map, Directory.files]

/-- A file of the directory is exported at its own path. -/
theorem joinName_of_mem (hunicode : directory.UnicodeNames)
    {file : List OsString × List UInt8} (hfile : file ∈ directory.files) (base : Location) :
    joinName base (relativeName file.1) = ⟨base ++ file.1, true⟩ :=
  joinName_relativeName base (Directory.path_ne_nil hfile)
    (directory.allowed file (directory.files_eq_filesIn ▸ hfile)) (hunicode file hfile)

theorem nodup_places (hunicode : directory.UnicodeNames) (base : Location) :
    ((walkEntries blake3 directory.tree).map (placeOf base)).Nodup := by
  have hplaces := (perm_walkEntries blake3 directory.tree).map (placeOf base)
  rw [List.map_map] at hplaces
  have hpaths : directory.tree.files.map
      (placeOf base ∘ fun file => (relativeName file.1, blake3 file.2)) =
        (directory.tree.files.map Prod.fst).map (base ++ ·) := by
    rw [List.map_map]
    apply List.map_congr_left
    intro file hfile
    exact congrArg Target.location (joinName_of_mem hunicode hfile base)
  rw [hplaces.nodup_iff, hpaths]
  have hnodup := FileTree.nodup_paths directory.tree directory.distinct
  exact hnodup.map (List.append_right_injective base)

theorem bytes_of_seeded (hseeded : HoldsFiles store (canonicalWalk directory.tree))
    {file : List OsString × List UInt8} (hfile : file ∈ directory.files) :
    store.bytes (blake3 file.2) = some file.2 := by
  have hwalked : (relativeName file.1, file.2) ∈ canonicalWalk directory.tree :=
    (mem_sortByKey Prod.fst).mpr (List.mem_map.mpr ⟨file, hfile, rfl⟩)
  exact hseeded.contents _ hwalked

/-- The staging directory that was just made is free for a path below it. -/
theorem Staged.fits (hstaged : Staged disk made dest) {path : Location} (hne : path ≠ []) :
    Fits .none made (dest.partialSibling ++ path) where
  above above habove hother := by
    by_cases hbelow : dest.partialSibling <+: above
    · obtain ⟨rest, rfl⟩ := hbelow
      cases rest with
      | nil => exact .inl (by rw [List.append_nil]; exact hstaged.dir)
      | cons name rest => exact .inr ⟨hstaged.below _ (by simp), rfl⟩
    · exact .inl (isDirAt_of_above hstaged.dir (prefix_base_of_beside habove hbelow))
  free := .inl (hstaged.below path hne)

/-- An imported directory can be exported to a staging directory that was just made. -/
theorem exportable_walkEntries (hunicode : directory.UnicodeNames)
    (hseeded : HoldsFiles store (canonicalWalk directory.tree))
    (hnul : hasNul dest.partialSibling = false) (hstaged : Staged disk made dest) :
    Exportable (exportCtx iroh store debugText) .none dest.partialSibling 0 made
      (walkEntries blake3 directory.tree) where
  ready := by
    intro entry hentry
    obtain ⟨member, index⟩ := entry
    obtain ⟨file, hfile, rfl⟩ := mem_walkEntries_iff.mp (List.fst_mem_of_mem_zipIdx hentry)
    have hallowed := directory.allowed file (directory.files_eq_filesIn ▸ hfile)
    have hjoin := joinName_of_mem hunicode hfile dest.partialSibling
    refine ⟨?_, by rw [hjoin], ?_, ?_, rfl⟩
    · exact staysBelow_relativeName (Directory.path_ne_nil hfile) hallowed (hunicode file hfile)
    · rw [hjoin, hasNul_eq_false_iff, List.forall_mem_append]
      exact ⟨hasNul_eq_false_iff.mp hnul, fun name hname => (hallowed name hname).nul_notMem⟩
    · exact Option.isSome_iff_exists.mpr ⟨file.2, bytes_of_seeded hseeded hfile⟩
  fits := by
    intro member hmember
    obtain ⟨file, hfile, rfl⟩ := mem_walkEntries_iff.mp hmember
    rw [placeOf, joinName_of_mem hunicode hfile]
    exact hstaged.fits (Directory.path_ne_nil hfile)
  apart := by
    apply List.pairwise_of_forall_mem_list
    intro member hmember other hother hinitial
    obtain ⟨file, hfile, rfl⟩ := mem_walkEntries_iff.mp hmember
    obtain ⟨found, hfound, rfl⟩ := mem_walkEntries_iff.mp hother
    rw [placeOf, placeOf, joinName_of_mem hunicode hfile,
      joinName_of_mem hunicode hfound] at hinitial ⊢
    dsimp only at hinitial ⊢
    rw [List.prefix_append_right_inj, List.prefix_append_right_inj] at hinitial
    rcases hinitial with habove | hbelow
    · rw [FileTree.eq_of_prefix_of_mem_files directory.distinct hfile hfound habove]
    · rw [FileTree.eq_of_prefix_of_mem_files directory.distinct hfound hfile hbelow]

theorem exportedBytes_walkEntries (hseeded : HoldsFiles store (canonicalWalk directory.tree)) :
    exportedBytes (exportCtx iroh store debugText) 0 (walkEntries blake3 directory.tree) =
      computeSizeFromPath directory.tree := by
  rw [exportedBytes, Directory.tree, computeSizeFromPath, walkEntries, List.foldl_map]
  apply List.foldl_ext
  intro total file hfile
  have hbytes : (exportCtx iroh store debugText).bytes (blake3 file.2) = some file.2 :=
    hseeded.contents file hfile
  dsimp only
  rw [hbytes, Option.getD_some]

/-- The files that stand in the staging directory once all members are exported. -/
theorem Exported.mem_files_iff {staged : FileSystem} {entries : DirEntries}
    (hunicode : directory.UnicodeNames) (hseeded : HoldsFiles store (canonicalWalk directory.tree))
    (hstaged : Staged disk made dest)
    (hexported : Exported (exportCtx iroh store debugText) dest.partialSibling
      (walkEntries blake3 directory.tree) made staged)
    (hentries : staged.lookup dest.partialSibling = some (.dir entries))
    (hdistinct : staged.tree.Distinct) (file : List OsString × List UInt8) :
    file ∈ (FileTree.dir entries).files ↔ file ∈ directory.files := by
  obtain ⟨path, contents⟩ := file
  have hbelow : staged.lookup (dest.partialSibling ++ path) =
      (FileTree.dir entries).lookup path := by
    rw [Disk.lookup, FileTree.lookup_append, ← Disk.lookup, hentries, Option.bind_some]
  rw [FileTree.mem_files_iff (hdistinct.of_lookup hentries), ← hbelow, hexported.file_iff]
  constructor
  · rintro (⟨member, hmember, hplace, hbytes⟩ | ⟨-, hbefore⟩)
    · obtain ⟨file, hfile, rfl⟩ := mem_walkEntries_iff.mp hmember
      rw [placeOf, joinName_of_mem hunicode hfile, List.append_right_inj] at hplace
      have hstored : some file.2 = some contents :=
        (bytes_of_seeded hseeded hfile).symm.trans hbytes
      rwa [← hplace, ← Option.some.inj hstored]
    · cases path with
      | nil =>
          obtain ⟨inner, hinner⟩ := hstaged.dir
          rw [List.append_nil, hinner] at hbefore
          simp at hbefore
      | cons name path =>
          rw [hstaged.below _ (by simp)] at hbefore
          contradiction
  · intro hfile
    refine .inl ⟨(relativeName path, blake3 contents), mem_walkEntries_iff.mpr ⟨_, hfile, rfl⟩,
      ?_, bytes_of_seeded hseeded hfile⟩
    rw [placeOf, joinName_of_mem hunicode hfile]

/-- Without faults, a swap onto a free destination is a rename. -/
theorem swap_of_free {staged : FileSystem} {entries : DirEntries}
    (hentries : staged.lookup dest.partialSibling = some (.dir entries))
    (hfree : staged.lookup dest.path = none) :
    ∃ after, swap .none staged dest = (after, .ok ()) ∧
      after.lookup dest.path = some (.dir entries) := by
  obtain ⟨hok, hlookup⟩ := rename_onto_nothing hentries hfree
  refine ⟨(staged.rename none dest.parent dest.partialName dest.name).1, ?_, hlookup⟩
  rw [swap, Disk.pathExists, hfree]
  simp only [Bool.false_eq_true, if_false, renameOnto, Faults.none]
  rcases hrename : staged.rename none dest.parent dest.partialName dest.name with ⟨after, result⟩
  rw [hrename] at hok
  rw [show result = .ok () from hok]

/-- The staging directory of an imported directory lists its files. -/
theorem stageMembers_of_seeded (iroh : IrohStore blake3) (debugText : String → String)
    (hunicode : directory.UnicodeNames)
    (hseeded : HoldsFiles store (canonicalWalk directory.tree))
    (hnul : hasNul dest.partialSibling = false) (hstaged : Staged disk made dest) :
    ∃ staged entries, stageMembers (exportCtx iroh store debugText) .none disk
        (walkEntries blake3 directory.tree) dest =
          (staged, .ok (computeSizeFromPath directory.tree)) ∧
      staged.lookup dest.partialSibling = some (.dir entries) ∧
      staged.lookup dest.path = none ∧ (FileTree.dir entries).Distinct ∧
      ∀ file, file ∈ (FileTree.dir entries).files ↔ file ∈ directory.files := by
  have hexportable : Exportable (exportCtx iroh store debugText) .none dest.partialSibling 0 made
      (walkEntries blake3 directory.tree) := exportable_walkEntries hunicode hseeded hnul hstaged
  have hloop := @exportMembers_of_exportable (exportCtx iroh store debugText) .none
    dest.partialSibling made 0 0 (walkEntries blake3 directory.tree) hexportable
      (nodup_places hunicode dest.partialSibling)
  obtain ⟨staged, hmembers, hexported⟩ := hloop
  have hstays := @staysIn_exportMembers (exportCtx iroh store debugText) .none
    dest.partialSibling made 0 (walkEntries blake3 directory.tree) 0 hstaged.dir
  have hdistinct := @distinct_exportMembers (exportCtx iroh store debugText) .none
    dest.partialSibling made 0 0 (walkEntries blake3 directory.tree) hstaged.distinct
  rw [hmembers] at hstays hdistinct
  obtain ⟨entries, hentries⟩ := hstays.2 _ rfl
  refine ⟨staged, entries, ?_, hentries, ?_, hdistinct.of_lookup hentries,
    hexported.mem_files_iff hunicode hseeded hstaged hentries hdistinct⟩
  · rw [stageMembers, hstaged.created]
    simp only [hmembers, exportedBytes_walkEntries hseeded]
  · rw [lookup_dest_of_agree hstays.1.beside, hstaged.free]

/-- An imported directory is exported to a fresh destination as it was. -/
theorem exportCollectionTo_of_seeded (debugText : String → String) (hiroh : iroh.Lawful)
    (hunicode : directory.UnicodeNames)
    (hseeded : HoldsFiles store (canonicalWalk directory.tree)) (hfresh : Fresh disk dest) :
    ∃ after entries, exportCollectionTo (exportCtx iroh store debugText) .none disk
        (rootHash blake3 directory.tree) dest =
          (after, .ok (computeSizeFromPath directory.tree)) ∧
      after.lookup dest.path = some (.dir entries) ∧ (FileTree.dir entries).Distinct ∧
      ∀ file, file ∈ (FileTree.dir entries).files ↔ file ∈ directory.files := by
  obtain ⟨hcleared, hnone⟩ := hfresh.cleared
  obtain ⟨made, hmade⟩ := hcleared.staged hnone
  obtain ⟨staged, entries, hstaged, hentries, hfree, hdistinct, hfiles⟩ :=
    stageMembers_of_seeded iroh debugText hunicode hseeded
      (hasNul_partialSibling hfresh.noNul) hmade
  obtain ⟨after, hswap, hdest⟩ := swap_of_free hentries hfree
  have hload : (exportCtx iroh store debugText).load (rootHash blake3 directory.tree) =
      .ok (walkEntries blake3 directory.tree) := load_of_seeded hiroh hseeded
  refine ⟨dropPath .none after dest.partialSibling, entries, ?_, ?_, hdistinct, hfiles⟩
  · rw [exportCollectionTo, hload]
    simp only [stageCollection, hstaged, hswap]
  · rw [lookup_dest_of_agree (agreeBeside_dropPath .none after dest.partialSibling), hdest]

/-- A directory with the files of another one. -/
def exportedDirectory (directory : Directory) (entries : DirEntries)
    (hdistinct : (FileTree.dir entries).Distinct)
    (hfiles : ∀ file, file ∈ (FileTree.dir entries).files ↔ file ∈ directory.files) :
    Directory where
  entries := entries
  distinct := hdistinct
  allowed file hfile := by
    rw [← FileTree.files_dir, hfiles, directory.files_eq_filesIn] at hfile
    exact directory.allowed file hfile

/-- However the exported directory is listed, its id is that of the imported one. -/
theorem computeContentId_of_sameFiles {exported : Directory}
    (hunicode : directory.UnicodeNames) (hsame : SameFiles exported.tree directory.tree)
    {listed : FileTree OsString (List UInt8)} (hlisted : exported.tree.Reordered listed) :
    computeContentId blake3 listed = computeContentId blake3 directory.tree := by
  have hunicodeExported : exported.UnicodeNames :=
    fun file hfile => hunicode file ((hsame file).mp hfile)
  have hapart := Directory.readsApart_of_unicode hunicodeExported
  have hwalk : canonicalWalk exported.tree = canonicalWalk directory.tree :=
    canonicalWalk_eq_of_sameFiles exported.distinct directory.distinct hapart hsame
  have hcanonical := canonicalWalk_canonical_iff.mpr hapart listed hlisted
  rw [computeContentId, walkEntries, hcanonical, hwalk, computeContentId, walkEntries]

end Members

/-- Importing a directory succeeds under its content id, in whatever order it is listed
then, and exporting the collection to a fresh destination gives the same files and the same
id; the sizes that are reported agree. -/
theorem import_export_round_trip {blake3 : Blake3} (iroh : IrohStore blake3)
    (hiroh : iroh.Lawful) (store : BlobStore blake3) (directory : Directory)
    (hunicode : directory.UnicodeNames)
    (hblake3 : Set.InjOn blake3 (store.held ∪ contentMessages blake3 directory.tree))
    (disk : FileSystem) (dest : Dest) (hfresh : Fresh disk dest)
    (listed : FileTree OsString (List UInt8)) (hlisted : directory.tree.Reordered listed)
    (cidText : Cid → String) (debugText : String → String) :
    let cid := computeContentId blake3 directory.tree
    let size := computeSizeFromPath directory.tree
    ∃ seeded hash, importCollection .none cidText store listed cid = (seeded, .ok hash) ∧
      artifactSizeFor iroh seeded cid hash = size ∧
      ∃ after, ∃ exported : Directory,
        exportCollectionTo (exportCtx iroh seeded debugText) .none disk hash dest =
            (after, .ok size) ∧
          after.lookup dest.path = some exported.tree ∧
          SameFiles exported.tree directory.tree ∧
          ∀ walked, exported.tree.Reordered walked → computeContentId blake3 walked = cid := by
  intro cid size
  have hapart := Directory.readsApart_of_unicode hunicode
  have hwalk : canonicalWalk listed = canonicalWalk directory.tree :=
    canonicalWalk_canonical_iff.mpr hapart listed hlisted
  obtain ⟨seeded, himport, hseeded⟩ := importCollection_none cidText hblake3
  obtain ⟨after, entries, hexport, hdest, hdistinct, hfiles⟩ :=
    exportCollectionTo_of_seeded debugText hiroh hunicode hseeded hfresh
  have hsame : SameFiles (exportedDirectory directory entries hdistinct hfiles).tree
      directory.tree := hfiles
  refine ⟨seeded, rootHash blake3 directory.tree, ?_, ?_, after,
    exportedDirectory directory entries hdistinct hfiles, hexport, hdest, hsame, ?_⟩
  · rw [importCollection, hwalk, ← himport, importCollection]
  · exact artifactSizeFor_of_seeded hiroh hseeded
  · intro walked hwalked
    exact computeContentId_of_sameFiles hunicode hsame hwalked

/-- Three files of a byte each, two of them in a directory, are imported as they are listed the
other way round and go to an empty disk. -/
theorem import_export_round_trip_of_nested :
    let directory := Directory.nested [1] [2] [3]
    let listed : FileTree OsString (List UInt8) := .dir
      [(Utf8.encode "app", .file [3]), (Utf8.encode "docs",
        .dir [(Utf8.encode "a", .file [1]), (Utf8.encode "b", .file [2])])]
    let dest : Dest := ⟨[], Utf8.encode "out"⟩
    let cid := computeContentId rollingHash directory.tree
    ∃ seeded hash, importCollection .none (fun _ => "bagaaiera") (BlobStore.empty rollingHash)
        listed cid = (seeded, .ok hash) ∧
      artifactSizeFor (.stored rollingHash) seeded cid hash = 3 ∧
      ∃ after, ∃ exported : Directory,
        exportCollectionTo (exportCtx (.stored rollingHash) seeded String.quote) .none ⟨[], []⟩
            hash dest = (after, .ok 3) ∧
          after.lookup dest.path = some exported.tree ∧
          SameFiles exported.tree directory.tree ∧
          ∀ walked, exported.tree.Reordered walked →
            computeContentId rollingHash walked = cid := by
  intro directory listed dest cid
  have hsize : computeSizeFromPath directory.tree = 3 := by decide
  have hfresh : Fresh ⟨[], []⟩ dest := {
    distinct := FileTree.distinct_nil
    above := fun above habove => .inl ⟨[], by rw [List.prefix_nil.mp habove]; rfl⟩
    free := rfl
    staging := .inl rfl
    noNul := by decide }
  have hlisted : directory.tree.Reordered listed :=
    .dir (.trans (.cons (.dir (.swap _ _ .nil)) (.cons (.file [3]) .nil)) (.swap _ _ .nil))
  have hround := import_export_round_trip (.stored rollingHash)
    (IrohStore.lawful_stored rollingHash) (.empty rollingHash) directory
    (Directory.unicodeNames_nested [1] [2] [3])
    (injOn_held_empty (injOn_rollingHash_nested.mono Set.subset_union_left)) ⟨[], []⟩ dest hfresh
    listed hlisted (fun _ => "bagaaiera") String.quote
  dsimp only at hround
  rwa [hsize] at hround

end RadicleArtifact.Node
