import RadicleArtifact.Node.Export

/-!
# The staging directory

What an export does before the destination is touched stays in the staging directory, and
it succeeds exactly if each member can be written beside the others.
-/

namespace RadicleArtifact.Node

open RadicleArtifact.Core
open RadicleArtifact.Library
open RadicleArtifact.Library.Disk
open RadicleArtifact.Library.Utf8 (OsString)

/-! ## Paths -/

/-- The names that lead down from a directory. -/
def namesBelow (parts : List Component) : Location :=
  parts.filterMap fun
    | .normal name => some (Utf8.encode name)
    | _ => none

theorem foldl_descend {parts : List Component} (hbelow : parts.all Component.staysBelow = true)
    (base : Location) : parts.foldl descend base = base ++ namesBelow parts := by
  induction parts generalizing base with
  | nil => rw [namesBelow, List.filterMap_nil, List.append_nil, List.foldl_nil]
  | cons part parts ih =>
      rw [List.all_cons, Bool.and_eq_true] at hbelow
      rw [List.foldl_cons, ih hbelow.2]
      cases part with
      | rootDir => exact absurd hbelow.1 (by decide)
      | parentDir => exact absurd hbelow.1 (by decide)
      | curDir => rfl
      | normal name => simp [descend, namesBelow]

/-- A safe name leads below the directory. -/
theorem safeJoin_eq_some {base : Location} {name : String} {target : Target}
    (htarget : safeJoin base name = some target) :
    (components name).all Component.staysBelow = true ∧ target = joinName base name ∧
      target.location = base ++ namesBelow (components name) := by
  rw [safeJoin] at htarget
  by_cases hbelow : (components name).all Component.staysBelow = true
  · rw [if_pos hbelow] at htarget
    obtain rfl := Option.some.inj htarget
    exact ⟨hbelow, rfl, foldl_descend hbelow base⟩
  · rw [if_neg hbelow] at htarget
    contradiction

namespace Dest

variable (dest : Dest)

theorem partialName_ne_name : dest.partialName ≠ dest.name := by
  intro hname
  have htext := congrArg (fun text => (Utf8.lossy text).length) hname
  simp only [partialName, Utf8.lossy_encode, String.length_append] at htext
  have hdot : ".".length = 1 := rfl
  omega

theorem partialSibling_ne_nil : dest.partialSibling ≠ [] := by
  simp [partialSibling]

theorem path_ne_nil : dest.path ≠ [] := by
  simp [path]

theorem not_partialSibling_prefix : ¬ dest.partialSibling <+: dest.path := by
  intro hinitial
  have heq := hinitial.eq_of_length (by simp [partialSibling, path])
  rw [partialSibling, path, List.append_right_inj, List.cons.injEq] at heq
  exact dest.partialName_ne_name heq.1

theorem not_path_prefix : ¬ dest.path <+: dest.partialSibling := by
  intro hinitial
  have heq := hinitial.eq_of_length (by simp [partialSibling, path])
  exact dest.not_partialSibling_prefix (heq ▸ List.prefix_rfl)

end Dest

/-! ## Staying below a directory -/

/-- Nothing beside the directory has changed or was written. -/
structure StaysIn (base : Location) (disk after : FileSystem) : Prop where
  beside : AgreeBeside base disk after
  written : ∀ made ∈ after.written, made ∈ disk.written ∨ base <+: made

section Stays

variable {ctx : ExportCtx} {faults : Faults} {base path : Location} {disk after later : FileSystem}
  {index : ℕ} {hash : Hash} {member : String × Hash} {members : List (String × Hash)}

theorem StaysIn.refl (base : Location) (disk : FileSystem) : StaysIn base disk disk :=
  ⟨.refl base disk, fun _ hmade => .inl hmade⟩

theorem StaysIn.trans (hfirst : StaysIn base disk after) (hsecond : StaysIn base after later) :
    StaysIn base disk later :=
  ⟨hfirst.beside.trans hsecond.beside, fun made hmade =>
    (hsecond.written made hmade).elim (hfirst.written made) .inr⟩

/-- The directory is there. -/
def IsDirAt (disk : FileSystem) (path : Location) : Prop :=
  ∃ entries, disk.lookup path = some (.dir entries)

theorem prefix_base_of_beside {other rest : Location} (hother : other <+: base ++ rest)
    (hbase : ¬ base <+: other) : other <+: base :=
  (List.prefix_or_prefix_of_prefix hother (List.prefix_append base rest)).resolve_right hbase

theorem isDirAt_of_above (hbase : IsDirAt disk base) (hpath : path <+: base) :
    IsDirAt disk path := by
  by_cases heq : path = base
  · exact heq ▸ hbase
  · obtain ⟨entries, hentries⟩ := hbase
    exact exists_dir_of_prefix hentries hpath heq

theorem agreeBeside_making {rest : Location} (hpath : path <+: base ++ rest) :
    AgreeBeside base disk (createDirAll faults disk path).1 := by
  rw [createDirAll]
  split
  · exact .refl base disk
  · exact agreeBeside_createDirAll fun other hother hbeside =>
      prefix_base_of_beside (hother.trans hpath) hbeside

/-- What is made on the way down to a path was missing there. -/
theorem missing_of_making {made : Location}
    (hmade : made ∈ (createDirAll faults disk path).1.written) :
    made ∈ disk.written ∨ made <+: path ∧ disk.lookup made = none := by
  rw [createDirAll] at hmade
  split at hmade
  · exact .inl hmade
  · exact (created_createDirAll faults.mkdir disk path).written made hmade

/-- Making a directory on the way below an existing one. -/
theorem staysIn_createDirAll {rest : Location} (hbase : IsDirAt disk base)
    (hpath : path <+: base ++ rest) : StaysIn base disk (createDirAll faults disk path).1 := by
  refine ⟨agreeBeside_making hpath, fun made hmade => ?_⟩
  rcases missing_of_making hmade with hold | ⟨hinitial, hmissing⟩
  · exact .inl hold
  · refine .inr (by_contra fun hbeside => ?_)
    obtain ⟨entries, hentries⟩ :=
      isDirAt_of_above hbase (prefix_base_of_beside (hinitial.trans hpath) hbeside)
    rw [hentries] at hmissing
    contradiction

/-- A directory that was made is there. -/
theorem isDirAt_of_making (hok : (createDirAll faults disk path).2 = .ok ()) :
    IsDirAt (createDirAll faults disk path).1 path := by
  rw [createDirAll] at hok ⊢
  split at hok
  · contradiction
  · rename_i hnul
    rw [if_neg hnul]
    exact (created_createDirAll faults.mkdir disk path).dirs hok path List.prefix_rfl

theorem isDirAt_createDirAll (hbase : IsDirAt disk base)
    (hok : (createDirAll faults disk path).2 = .ok ()) :
    IsDirAt (createDirAll faults disk path).1 base := by
  rw [createDirAll] at hok ⊢
  split at hok
  · contradiction
  · rename_i hnul
    rw [if_neg hnul]
    have hcreated := created_createDirAll faults.mkdir disk path
    by_cases hinitial : base <+: path
    · exact hcreated.dirs hok base hinitial
    · obtain ⟨entries, hentries⟩ := hbase
      exact ⟨entries, by rw [hcreated.frame base hinitial, hentries]⟩

/-- Writing a blob makes the directory above it and at most writes the file. -/
theorem writeBlob_cases (ctx : ExportCtx) (faults : Faults) (index : ℕ) (disk : FileSystem)
    (hash : Hash) (target : Target) :
    (writeBlob ctx faults index disk hash target).1 =
        (createDirAll faults disk target.location.dropLast).1 ∨
      ∃ contents, (writeBlob ctx faults index disk hash target).1 =
        ((createDirAll faults disk target.location.dropLast).1.write target.location contents
          (faults.write index)).1 := by
  rw [writeBlob]
  rcases createDirAll faults disk target.location.dropLast with ⟨made, result⟩
  cases result with
  | error err => exact .inl rfl
  | ok created =>
      cases ctx.bytes hash with
      | none => exact .inl rfl
      | some contents =>
          dsimp only
          split
          · exact .inl rfl
          · split
            · exact .inl rfl
            · refine .inr ⟨contents, ?_⟩
              rcases made.write target.location contents (faults.write index) with
                ⟨after, outcome⟩
              cases outcome <;> rfl

theorem agreeBeside_writeBlob {rest : Location} {target : Target}
    (htarget : target.location = base ++ rest) :
    AgreeBeside base disk (writeBlob ctx faults index disk hash target).1 := by
  have hmade : AgreeBeside base disk (createDirAll faults disk target.location.dropLast).1 :=
    agreeBeside_making (by rw [htarget]; exact List.dropLast_prefix _)
  rcases writeBlob_cases ctx faults index disk hash target with hsame | ⟨contents, hwritten⟩
  · rwa [hsame]
  · rw [hwritten]
    rw [htarget] at hmade ⊢
    exact hmade.trans (agreeBeside_write _ _ _).of_append

theorem staysIn_writeBlob {rest : Location} {target : Target} (hbase : IsDirAt disk base)
    (htarget : target.location = base ++ rest) :
    StaysIn base disk (writeBlob ctx faults index disk hash target).1 := by
  refine ⟨agreeBeside_writeBlob htarget, ?_⟩
  have hmade : StaysIn base disk (createDirAll faults disk target.location.dropLast).1 :=
    staysIn_createDirAll hbase (by rw [htarget]; exact List.dropLast_prefix _)
  rcases writeBlob_cases ctx faults index disk hash target with hsame | ⟨contents, hwritten⟩
  · rw [hsame]
    exact hmade.written
  · intro path hpath
    rw [hwritten] at hpath
    rcases mem_written_write hpath with hbefore | rfl
    · exact hmade.written path hbefore
    · exact .inr (by rw [htarget]; exact List.prefix_append _ _)

/-! ## Writing one blob -/

/-- Whether a file can be written at the path, below directories that are there or can be
made. -/
structure Fits (faults : Faults) (disk : FileSystem) (path : Location) : Prop where
  above : ∀ above, above <+: path → above ≠ path →
    IsDirAt disk above ∨ disk.lookup above = none ∧ faults.mkdir above = none
  free : disk.lookup path = none ∨ ∃ contents, disk.lookup path = some (.file contents)

/-- The file was written at the path. -/
structure Saved (path : Location) (contents : List UInt8) (disk after : FileSystem) : Prop where
  saved : after.lookup path = some (.file contents)
  above : ∀ above, above <+: path → above ≠ path → IsDirAt after above
  beside : AgreeBeside path disk after

theorem prefix_dropLast_iff {above : Location} (hne : path ≠ []) :
    above <+: path.dropLast ↔ above <+: path ∧ above ≠ path := by
  have hconcat := List.dropLast_concat_getLast hne
  constructor
  · intro hinitial
    refine ⟨hinitial.trans (List.dropLast_prefix path), fun heq => ?_⟩
    have hlength := hinitial.length_le
    have hpos := List.length_pos_of_ne_nil hne
    rw [heq, List.length_dropLast] at hlength
    omega
  · rintro ⟨hinitial, hother⟩
    rw [← hconcat, List.prefix_concat_iff, hconcat] at hinitial
    exact hinitial.resolve_left hother

theorem Fits.ne_nil (hfits : Fits faults disk path) : path ≠ [] := by
  rintro rfl
  have hroot := Disk.lookup_nil disk
  rcases hfits.free with hnone | ⟨contents, hfile⟩
  · simp [hroot] at hnone
  · simp [hroot] at hfile

theorem hasNul_dropLast (hnul : hasNul path = false) : hasNul path.dropLast = false := by
  rw [hasNul, List.any_eq_false] at hnul ⊢
  exact fun name hname => hnul name (List.mem_of_mem_dropLast hname)

/-- A path fits exactly if the directory above it can be made and the file written there. -/
theorem fits_iff (hnul : hasNul path = false) :
    Fits faults disk path ↔ (createDirAll faults disk path.dropLast).2 = .ok () ∧
      (createDirAll faults disk path.dropLast).1.writable path = .ok () := by
  have hcreated := created_createDirAll faults.mkdir disk path.dropLast
  rw [createDirAll, if_neg (by simp [hasNul_dropLast hnul])]
  have hkeeps : path ≠ [] →
      (disk.createDirAll faults.mkdir path.dropLast).1.lookup path = disk.lookup path :=
    fun hne => hcreated.frame path fun hinitial => ((prefix_dropLast_iff hne).mp hinitial).2 rfl
  constructor
  · intro hfits
    have hok : (disk.createDirAll faults.mkdir path.dropLast).2 = .ok () := by
      refine hcreated.ok_iff.mpr fun above habove => ?_
      obtain ⟨hinitial, hne⟩ := (prefix_dropLast_iff hfits.ne_nil).mp habove
      exact hfits.above above hinitial hne
    refine ⟨hok, writable_eq_ok_iff.mpr ⟨hcreated.dirs hok _ List.prefix_rfl, ?_⟩⟩
    rw [hkeeps hfits.ne_nil]
    exact hfits.free
  · rintro ⟨hok, hwritable⟩
    have hne := ne_nil_of_writable hwritable
    refine ⟨fun above hinitial hother => ?_, ?_⟩
    · exact hcreated.ok_iff.mp hok above ((prefix_dropLast_iff hne).mpr ⟨hinitial, hother⟩)
    · rw [← hkeeps hne]
      exact (writable_eq_ok_iff.mp hwritable).2

/-- What a write at a path that fits leaves. -/
theorem Fits.saved (hfits : Fits faults disk path) (hnul : hasNul path = false)
    (contents : List UInt8) :
    Saved path contents disk
      (((createDirAll faults disk path.dropLast).1.set path (.file contents)).log path) := by
  obtain ⟨hok, hwritable⟩ := (fits_iff hnul).mp hfits
  have hpassable := passable_of_writable hwritable
  refine ⟨?_, fun above habove hne => ?_, fun other hbelow habove => ?_⟩
  · rw [lookup_log, lookup_set_self hfits.ne_nil hpassable]
  · exact isDir_of_written hwritable habove hne
  · rw [lookup_log, lookup_set_of_not_prefix hbelow habove, createDirAll,
      if_neg (by simp [hasNul_dropLast hnul])]
    exact (created_createDirAll faults.mkdir disk path.dropLast).frame other fun hinitial =>
      habove (hinitial.trans (List.dropLast_prefix path))

/-- Whether a member can be written, but for what stands on the disk. -/
structure Ready (ctx : ExportCtx) (faults : Faults) (base : Location) (index : ℕ)
    (member : String × Hash) : Prop where
  safe : (components member.1).all Component.staysBelow = true
  namesFile : (joinName base member.1).namesFile = true
  noNul : hasNul (joinName base member.1).location = false
  complete : (ctx.bytes member.2).isSome = true
  noFault : faults.write index = none

theorem createDirAll_of_isDirAt (hpath : IsDirAt disk path) (hnul : hasNul path = false) :
    createDirAll faults disk path = (disk, .ok ()) := by
  obtain ⟨entries, hentries⟩ := hpath
  rw [createDirAll, if_neg (by simp [hnul]), Disk.createDirAll_of_isDir hentries]

/-- A blob is written into a directory that is there. -/
theorem writeBlob_of_writable {target : Target} (hfile : target.namesFile = true)
    (hnul : hasNul target.location = false) {contents : List UInt8}
    (hbytes : ctx.bytes hash = some contents) (hfault : faults.write index = none)
    (hwritable : disk.writable target.location = .ok ()) :
    writeBlob ctx faults index disk hash target =
      ((disk.set target.location (.file contents)).log target.location,
        .ok contents.length) := by
  have habove : createDirAll faults disk target.location.dropLast = (disk, .ok ()) :=
    createDirAll_of_isDirAt (writable_eq_ok_iff.mp hwritable).1 (hasNul_dropLast hnul)
  simp only [writeBlob, habove, hbytes, hfile, hnul, hfault, write_of_ok hwritable,
    Bool.not_true, Bool.false_eq_true, if_false]

theorem writable_of_writeBlob {target : Target} {bytes : ℕ}
    (hok : (writeBlob ctx faults index disk hash target).2 = .ok bytes) :
    target.namesFile = true ∧ hasNul target.location = false ∧ (ctx.bytes hash).isSome = true ∧
      faults.write index = none ∧ (createDirAll faults disk target.location.dropLast).2 = .ok () ∧
      (createDirAll faults disk target.location.dropLast).1.writable target.location =
        .ok () := by
  rw [writeBlob] at hok
  rcases hmade : createDirAll faults disk target.location.dropLast with ⟨made, result⟩
  rw [hmade] at hok
  cases result with
  | error err => simp at hok
  | ok created =>
      cases hbytes : ctx.bytes hash with
      | none => simp [hbytes] at hok
      | some contents =>
          simp only [hbytes, Bool.not_eq_true'] at hok
          by_cases hfile : target.namesFile = false
          · simp [hfile] at hok
          · by_cases hnul : hasNul target.location = true
            · simp [hfile, hnul] at hok
            · rw [if_neg hfile, if_neg hnul] at hok
              have hwrite : (made.write target.location contents (faults.write index)).2 =
                  .ok () := by
                rcases hwritten : made.write target.location contents (faults.write index) with
                  ⟨after, outcome⟩
                rw [hwritten] at hok
                cases outcome with
                | error err => simp at hok
                | ok written => rfl
              obtain ⟨hwritable, hfault⟩ := write_eq_ok_iff.mp hwrite
              exact ⟨by simpa using hfile, by simpa using hnul, rfl, hfault, rfl, hwritable⟩

theorem exportStreamed_of_ok {target : Target} {bytes : ℕ}
    (hok : writeBlob ctx faults index disk hash target = (after, .ok bytes)) :
    exportStreamed ctx faults index disk hash target = (after, .ok bytes) := by
  rw [exportStreamed, hok]

theorem ok_of_exportStreamed {target : Target} {bytes : ℕ}
    (hok : (exportStreamed ctx faults index disk hash target).2 = .ok bytes) :
    (writeBlob ctx faults index disk hash target).2 = .ok bytes := by
  rw [exportStreamed] at hok
  rcases hwritten : writeBlob ctx faults index disk hash target with ⟨after, result⟩
  rw [hwritten] at hok
  cases result with
  | error err => simp at hok
  | ok written =>
      rw [Except.ok.inj hok]

@[simp]
theorem exportStreamed_fst (target : Target) :
    (exportStreamed ctx faults index disk hash target).1 =
      (writeBlob ctx faults index disk hash target).1 := by
  rw [exportStreamed]
  rcases writeBlob ctx faults index disk hash target with ⟨after, result⟩
  cases result <;> rfl

/-- A member that is ready and fits is written. -/
theorem exportMember_of_fits (hready : Ready ctx faults base index member)
    (hfits : Fits faults disk (joinName base member.1).location) {contents : List UInt8}
    (hbytes : ctx.bytes member.2 = some contents) :
    ∃ after, exportMember ctx faults base index disk member = (after, .ok contents.length) ∧
      Saved (joinName base member.1).location contents disk after := by
  obtain ⟨hok, hwritable⟩ := (fits_iff hready.noNul).mp hfits
  refine ⟨_, ?_, hfits.saved hready.noNul contents⟩
  rw [exportMember, safeJoin, if_pos hready.safe]
  dsimp only
  rcases hmade : createDirAll faults disk (joinName base member.1).location.dropLast with
    ⟨made, result⟩
  rw [hmade] at hok hwritable
  obtain rfl : result = .ok () := hok
  have hwritten := writeBlob_of_writable hready.namesFile hready.noNul hbytes hready.noFault
    hwritable
  simp only [exportStreamed_of_ok hwritten]

/-- Nothing else is written. -/
theorem fits_of_exportMember {bytes : ℕ}
    (hok : (exportMember ctx faults base index disk member).2 = .ok bytes) :
    Ready ctx faults base index member ∧
      Fits faults disk (joinName base member.1).location := by
  rw [exportMember] at hok
  cases htarget : safeJoin base member.1 with
  | none => simp [htarget] at hok
  | some target =>
      obtain ⟨hsafe, rfl, -⟩ := safeJoin_eq_some htarget
      simp only [htarget] at hok
      rcases hmade : createDirAll faults disk (joinName base member.1).location.dropLast with
        ⟨made, result⟩
      rw [hmade] at hok
      cases result with
      | error err => simp at hok
      | ok created =>
          have hstreamed : (exportStreamed ctx faults index made member.2
              (joinName base member.1)).2 = .ok bytes := by
            rcases hexported : exportStreamed ctx faults index made member.2
              (joinName base member.1) with ⟨after, outcome⟩
            simp only [hexported] at hok
            cases outcome with
            | error err => simp at hok
            | ok written => exact hok
          obtain ⟨hfile, hnul, hbytes, hfault, -, hwritable⟩ :=
            writable_of_writeBlob (ok_of_exportStreamed hstreamed)
          refine ⟨⟨hsafe, hfile, hnul, hbytes, hfault⟩, (fits_iff hnul).mpr ?_⟩
          have habove : IsDirAt (createDirAll faults disk
              (joinName base member.1).location.dropLast).1
                (joinName base member.1).location.dropLast := isDirAt_of_making (by rw [hmade])
          rw [hmade] at habove
          rw [createDirAll_of_isDirAt habove (hasNul_dropLast hnul)] at hwritable
          rw [hmade]
          exact ⟨rfl, hwritable⟩

/-! ## The loop over the members -/

/-- Where a member is written. -/
abbrev placeOf (base : Location) (member : String × Hash) : Location :=
  (joinName base member.1).location

/-- Neither path runs through the file at the other. -/
def Apart (path other : Location) : Prop :=
  path <+: other ∨ other <+: path → path = other

/-- After one file is written, another fits if it fitted before and they are apart. -/
theorem fits_saved_iff {other : Location} {contents : List UInt8} (hfits : Fits faults disk path)
    (hsaved : Saved path contents disk after) :
    Fits faults after other ↔ Fits faults disk other ∧ Apart path other := by
  have hfile : ∀ above, IsDirAt after above → above ≠ path := by
    rintro above ⟨entries, hentries⟩ rfl
    simp [hsaved.saved] at hentries
  constructor
  · intro hother
    have hapart : Apart path other := by
      rintro (hinitial | hinitial) <;> by_contra hne
      · rcases hother.above path hinitial hne with hdir | ⟨hnone, -⟩
        · exact hfile path hdir rfl
        · simp [hsaved.saved] at hnone
      · obtain ⟨entries, hentries⟩ := hsaved.above other hinitial (Ne.symm hne)
        rcases hother.free with hnone | ⟨found, hfound⟩
        · simp [hentries] at hnone
        · simp [hentries] at hfound
    refine ⟨⟨fun above habove hne => ?_, ?_⟩, hapart⟩
    · by_cases hbelow : path <+: above
      · have heq := hapart (.inl (hbelow.trans habove))
        exact absurd (habove.eq_of_length_le (heq ▸ hbelow.length_le)) hne
      · by_cases hinitial : above <+: path
        · exact hfits.above above hinitial fun heq => hbelow (heq ▸ List.prefix_rfl)
        · rw [IsDirAt, ← hsaved.beside above hbelow hinitial]
          exact hother.above above habove hne
    · by_cases heq : path = other
      · exact heq ▸ hfits.free
      · rw [← hsaved.beside other (fun hinitial => heq (hapart (.inl hinitial)))
          fun hinitial => heq (hapart (.inr hinitial))]
        exact hother.free
  · rintro ⟨hother, hapart⟩
    refine ⟨fun above habove hne => ?_, ?_⟩
    · by_cases hbelow : path <+: above
      · have heq := hapart (.inl (hbelow.trans habove))
        exact absurd (habove.eq_of_length_le (heq ▸ hbelow.length_le)) hne
      · by_cases hinitial : above <+: path
        · exact .inl (hsaved.above above hinitial fun heq => hbelow (heq ▸ List.prefix_rfl))
        · rw [IsDirAt, hsaved.beside above hbelow hinitial]
          exact hother.above above habove hne
    · by_cases heq : path = other
      · exact .inr ⟨contents, heq ▸ hsaved.saved⟩
      · rw [hsaved.beside other (fun hinitial => heq (hapart (.inl hinitial)))
          fun hinitial => heq (hapart (.inr hinitial))]
        exact hother.free

/-- Each member is ready and fits, and no two are in each other's way. -/
structure Exportable (ctx : ExportCtx) (faults : Faults) (base : Location) (index : ℕ)
    (disk : FileSystem) (members : List (String × Hash)) : Prop where
  ready : ∀ entry ∈ members.zipIdx index, Ready ctx faults base entry.2 entry.1
  fits : ∀ member ∈ members, Fits faults disk (placeOf base member)
  apart : members.Pairwise fun member other => Apart (placeOf base member) (placeOf base other)

theorem exportable_cons_iff {contents : List UInt8}
    (hfits : Fits faults disk (placeOf base member))
    (hsaved : Saved (placeOf base member) contents disk after) :
    Exportable ctx faults base index disk (member :: members) ↔
      Ready ctx faults base index member ∧
        Exportable ctx faults base (index + 1) after members := by
  constructor
  · rintro ⟨hready, hall, hapart⟩
    rw [List.zipIdx_cons, List.forall_mem_cons] at hready
    obtain ⟨hmine, hothers⟩ := List.pairwise_cons.mp hapart
    refine ⟨hready.1, hready.2, fun other hother => ?_, hothers⟩
    exact (fits_saved_iff hfits hsaved).mpr
      ⟨hall other (List.mem_cons_of_mem _ hother), hmine other hother⟩
  · rintro ⟨hmine, hready, hall, hapart⟩
    refine ⟨?_, ?_, List.pairwise_cons.mpr ⟨fun other hother => ?_, hapart⟩⟩
    · rw [List.zipIdx_cons, List.forall_mem_cons]
      exact ⟨hmine, hready⟩
    · rw [List.forall_mem_cons]
      exact ⟨hfits, fun other hother => ((fits_saved_iff hfits hsaved).mp (hall other hother)).1⟩
    · exact ((fits_saved_iff hfits hsaved).mp (hall other hother)).2

/-- The loop gets through exactly if its members are exportable. -/
theorem exportMembers_ok_iff {total : ℕ} :
    (∃ bytes, (exportMembers ctx faults base index total disk members).2 = .ok bytes) ↔
      Exportable ctx faults base index disk members := by
  induction members generalizing index total disk with
  | nil => exact ⟨fun _ => ⟨by simp, by simp, .nil⟩, fun _ => ⟨total, rfl⟩⟩
  | cons member members ih =>
      rw [exportMembers]
      rcases hmember : exportMember ctx faults base index disk member with ⟨after, result⟩
      cases result with
      | error err =>
          refine iff_of_false (by simp) fun hexportable => ?_
          have hready := hexportable.ready (member, index) (by simp [List.zipIdx_cons])
          obtain ⟨contents, hbytes⟩ := Option.isSome_iff_exists.mp hready.complete
          obtain ⟨saved, hsaved, -⟩ :=
            exportMember_of_fits hready (hexportable.fits member List.mem_cons_self) hbytes
          rw [hmember] at hsaved
          simp at hsaved
      | ok bytes =>
          obtain ⟨hready, hfits⟩ := fits_of_exportMember (by rw [hmember])
          obtain ⟨contents, hbytes⟩ := Option.isSome_iff_exists.mp hready.complete
          obtain ⟨saved, hexported, hsaved⟩ := exportMember_of_fits hready hfits hbytes
          rw [hmember] at hexported
          obtain ⟨rfl, -⟩ := Prod.mk.inj hexported
          rw [exportable_cons_iff hfits hsaved, and_iff_right hready]
          exact ih

/-! ## What the loop leaves alone -/

theorem staysIn_exportMember (hbase : IsDirAt disk base) :
    StaysIn base disk (exportMember ctx faults base index disk member).1 := by
  rw [exportMember]
  cases htarget : safeJoin base member.1 with
  | none => exact .refl base disk
  | some target =>
      obtain ⟨-, -, hlocation⟩ := safeJoin_eq_some htarget
      have hmade : StaysIn base disk (createDirAll faults disk target.location.dropLast).1 :=
        staysIn_createDirAll hbase (by rw [hlocation]; exact List.dropLast_prefix _)
      dsimp only
      rcases hresult : createDirAll faults disk target.location.dropLast with ⟨made, result⟩
      have hkept : result = .ok () → IsDirAt made base := by
        rintro rfl
        have hdir : IsDirAt (createDirAll faults disk target.location.dropLast).1 base :=
          isDirAt_createDirAll hbase (by rw [hresult])
        rwa [hresult] at hdir
      rw [hresult] at hmade
      cases result with
      | error err => exact hmade
      | ok created =>
          have hwritten : StaysIn base made
              (exportStreamed ctx faults index made member.2 target).1 := by
            rw [exportStreamed_fst]
            exact staysIn_writeBlob (hkept rfl) hlocation
          rcases hexported : exportStreamed ctx faults index made member.2 target with
            ⟨after, outcome⟩
          rw [hexported] at hwritten
          cases outcome with
          | error err => simpa [hexported] using hmade.trans hwritten
          | ok bytes => simpa [hexported] using hmade.trans hwritten

theorem isDirAt_of_saved {contents : List UInt8} (hbase : IsDirAt disk base)
    (hfits : Fits faults disk path) (hpath : base <+: path)
    (hsaved : Saved path contents disk after) : IsDirAt after base := by
  refine hsaved.above base hpath fun heq => ?_
  obtain ⟨entries, hentries⟩ := hbase
  rcases hfits.free with hnone | ⟨found, hfound⟩
  · simp [← heq, hentries] at hnone
  · simp [← heq, hentries] at hfound

/-- A member that was written leaves the directory in place. -/
theorem isDirAt_exportMember {bytes : ℕ} (hbase : IsDirAt disk base)
    (hmember : exportMember ctx faults base index disk member = (after, .ok bytes)) :
    IsDirAt after base := by
  obtain ⟨hready, hfits⟩ := fits_of_exportMember (by rw [hmember])
  obtain ⟨contents, hbytes⟩ := Option.isSome_iff_exists.mp hready.complete
  obtain ⟨saved, hexported, hsaved⟩ := exportMember_of_fits hready hfits hbytes
  rw [hmember] at hexported
  obtain ⟨rfl, -⟩ := Prod.mk.inj hexported
  have hlocation : (joinName base member.1).location =
      base ++ namesBelow (components member.1) := foldl_descend hready.safe base
  exact isDirAt_of_saved hbase hfits (hlocation ▸ List.prefix_append _ _) hsaved

/-- The whole loop stays in the directory, which is there in the end if it gets through. -/
theorem staysIn_exportMembers {total : ℕ} (hbase : IsDirAt disk base) :
    StaysIn base disk (exportMembers ctx faults base index total disk members).1 ∧
      (∀ bytes, (exportMembers ctx faults base index total disk members).2 = .ok bytes →
        IsDirAt (exportMembers ctx faults base index total disk members).1 base) := by
  induction members generalizing index total disk with
  | nil => exact ⟨.refl base disk, fun _ _ => hbase⟩
  | cons member members ih =>
      have hstep : StaysIn base disk (exportMember ctx faults base index disk member).1 :=
        staysIn_exportMember hbase
      rw [exportMembers]
      rcases hmember : exportMember ctx faults base index disk member with ⟨after, result⟩
      rw [hmember] at hstep
      cases result with
      | error err => exact ⟨hstep, by simp⟩
      | ok bytes =>
          have hrest := @ih after (index + 1) (saturatingAdd total bytes)
            (isDirAt_exportMember hbase hmember)
          exact ⟨hstep.trans hrest.1, hrest.2⟩

end Stays

end RadicleArtifact.Node
