import RadicleArtifact.Node.Atomic

/-!
# Where an export writes

The names of members come from whoever provides the collection.  Whatever they are, an
export makes and writes nothing but the staging directory, what lies under it, and the
destination, apart from directories above the destination that are missing.
-/

namespace RadicleArtifact.Node

open RadicleArtifact.Core
open RadicleArtifact.Library
open RadicleArtifact.Library.Disk
open RadicleArtifact.Library.Utf8 (OsString)

/-- The name is absolute or has a parent component. -/
def Escapes (name : String) : Prop :=
  name.toList.head? = some '/' ∨ ".." ∈ namePieces name

theorem namePieces_ne_nil (name : String) : namePieces name ≠ [] := by
  simp [namePieces]

/-- A name is absolute exactly if its first piece is empty and not the only one. -/
theorem absolute_iff {name first : String} {rest : List String}
    (hpieces : namePieces name = first :: rest) :
    name.toList.head? = some '/' ↔ first = "" ∧ rest ≠ [] := by
  rw [namePieces] at hpieces
  cases hname : name.toList with
  | nil =>
      rw [hname, List.splitOn_nil, List.map_singleton] at hpieces
      obtain ⟨-, rfl⟩ := List.cons.inj hpieces
      simp
  | cons char chars =>
      rw [hname, List.splitOn_cons_eq_if_modifyHead] at hpieces
      by_cases hslash : char = '/'
      · rw [if_pos (by simpa using hslash), List.map_cons] at hpieces
        obtain ⟨rfl, rfl⟩ := List.cons.inj hpieces
        simp [hslash, List.splitOn_ne_nil]
      · rw [if_neg (by simpa using hslash)] at hpieces
        have hfirst : first ≠ "" := by
          rintro rfl
          cases hsplit : chars.splitOn '/' with
          | nil => exact List.splitOn_ne_nil '/' chars hsplit
          | cons piece pieces =>
              rw [hsplit, List.modifyHead_cons, List.map_cons] at hpieces
              have hempty := congrArg String.toList (List.cons.inj hpieces).1
              simp at hempty
        simp [hslash, hfirst]

theorem staysBelow_laterComponent (pieces : List String) :
    (pieces.filterMap laterComponent).all Component.staysBelow = true ↔ ".." ∉ pieces := by
  induction pieces with
  | nil => simp
  | cons piece pieces ih =>
      rw [List.mem_cons, not_or, ← ih]
      by_cases hskip : piece = "" ∨ piece = "."
      · have hne : ".." ≠ piece := by
          rintro rfl
          exact absurd hskip (by decide)
        simp [laterComponent, hskip, hne]
      · by_cases hparent : piece = ".."
        · simp [laterComponent, hparent, Component.staysBelow]
        · simp [laterComponent, hskip, hparent, Component.staysBelow, @eq_comm _ ".."]

/-- The components of a name stay below the directory exactly if it does not escape. -/
theorem all_staysBelow_iff (name : String) :
    (components name).all Component.staysBelow = true ↔ ¬ Escapes name := by
  rw [components, Escapes]
  cases hpieces : namePieces name with
  | nil => exact absurd hpieces (namePieces_ne_nil name)
  | cons first rest =>
      rw [absolute_iff hpieces, List.mem_cons]
      have hrest := staysBelow_laterComponent rest
      dsimp only
      by_cases habsolute : first = "" ∧ rest ≠ []
      · rw [if_pos habsolute]
        simp [habsolute, Component.staysBelow]
      · rw [if_neg habsolute]
        by_cases hdot : first = "."
        · rw [if_pos hdot, List.all_cons, Bool.and_eq_true, hrest]
          simp [hdot, Component.staysBelow]
        · have hwhole : (laterComponent first).toList ++ rest.filterMap laterComponent =
              (first :: rest).filterMap laterComponent := by
            cases hfirst : laterComponent first <;> simp [hfirst]
          rw [if_neg hdot, hwhole, staysBelow_laterComponent, List.mem_cons]
          simp [habsolute]

/-! ## The paths written -/

section Written

variable {ctx : ExportCtx} {faults : Faults} {disk staged : FileSystem} {hash : Hash}
  {dest : Dest} {members : List (String × Hash)}

theorem mem_written_renameOnto {made : Location}
    (hmade : made ∈ (renameOnto faults disk dest).1.written) :
    made ∈ disk.written ∨ made = dest.path := by
  rw [renameOnto] at hmade
  rcases hrename : disk.rename faults.rename dest.parent dest.partialName dest.name with
    ⟨after, result⟩
  have hwritten : made ∈ after.written := by
    rw [hrename] at hmade
    cases result <;> exact hmade
  exact mem_written_rename (by rw [hrename]; exact hwritten)

theorem mem_written_swap {made : Location} (hmade : made ∈ (swap faults disk dest).1.written) :
    made ∈ disk.written ∨ made = dest.path := by
  rw [swap] at hmade
  generalize hreplaced : (if disk.pathExists dest.path = true then
    disk.removeDirAll faults.remove dest.path else (disk, .ok ())) = replaced at hmade
  have hsame : replaced.1.written = disk.written := by
    rw [← hreplaced]
    split <;> simp
  obtain ⟨removed, result⟩ := replaced
  cases result with
  | error err => exact .inl (hsame ▸ hmade)
  | ok removal =>
      rcases mem_written_renameOnto hmade with hbefore | hdest
      · exact .inl (hsame ▸ hbefore)
      · exact .inr hdest

/-- What a staged collection writes, from the disk it starts on. -/
theorem mem_written_stageCollection {made : Location}
    (hmade : made ∈ (stageCollection ctx faults disk members dest).1.written) :
    made ∈ disk.written ∨ dest.partialSibling <+: made ∨ made = dest.path ∨
      made <+: dest.partialSibling ∧ disk.lookup made = none := by
  obtain ⟨-, hstaging, -⟩ := @staged_of_stageMembers ctx faults disk dest members
  rw [stageCollection] at hmade
  rcases hstaged : stageMembers ctx faults disk members dest with ⟨staged, result⟩
  rw [hstaged] at hmade hstaging
  have hbefore : made ∈ staged.written → made ∈ disk.written ∨ dest.partialSibling <+: made ∨
      made = dest.path ∨ made <+: dest.partialSibling ∧ disk.lookup made = none :=
    fun hmem => (hstaging made hmem).imp_right (Or.imp_right .inr)
  cases result with
  | error err => exact hbefore hmade
  | ok total =>
      have hswapped : made ∈ (swap faults staged dest).1.written := by
        rcases hswap : swap faults staged dest with ⟨after, outcome⟩
        simp only [hswap] at hmade
        cases outcome <;> exact hmade
      rcases mem_written_swap hswapped with hmem | hdest
      · exact hbefore hmem
      · exact .inr (.inr (.inl hdest))

/-- An ancestor of the destination that was missing. -/
def MissingAncestor (disk : FileSystem) (dest : Dest) (path : Location) : Prop :=
  path <+: dest.parent ∧ disk.lookup path = none

theorem mem_written_exportCollectionTo {made : Location}
    (hmade : made ∈ (exportCollectionTo ctx faults disk hash dest).1.written) :
    made ∈ disk.written ∨ dest.partialSibling <+: made ∨ made = dest.path ∨
      MissingAncestor disk dest made := by
  rw [exportCollectionTo] at hmade
  cases hload : ctx.load hash with
  | error err =>
      rw [hload] at hmade
      exact .inl hmade
  | ok members =>
      simp only [hload, written_dropPath] at hmade
      rcases mem_written_stageCollection hmade with hbefore | hbelow | hdest | ⟨habove, hnone⟩
      · rw [written_removeDirAll] at hbefore
        exact .inl hbefore
      · exact .inr (.inl hbelow)
      · exact .inr (.inr (.inl hdest))
      · rcases List.prefix_concat_iff.mp habove with hself | hparent
        · exact .inr (.inl (by rw [hself]; exact List.prefix_rfl))
        · have hne : made ≠ dest.partialSibling := by
            rintro rfl
            have hlength := hparent.length_le
            simp [Dest.partialSibling] at hlength
          exact .inr (.inr (.inr ⟨hparent, lookup_eq_none_of_removeDirAll habove hne hnone⟩))

/-- A collection with a name that escapes cannot be staged. -/
theorem not_stageable_of_escapes (hescapes : ∃ member ∈ members, Escapes member.1) :
    ¬ Stageable ctx faults disk members dest := by
  intro hstageable
  obtain ⟨member, hmember, hescape⟩ := hescapes
  rw [← List.zipIdx_map_fst 0 members, List.mem_map] at hmember
  obtain ⟨entry, hentry, rfl⟩ := hmember
  have hready := hstageable.exportable.ready entry hentry
  exact (all_staysBelow_iff entry.1.1).mp hready.safe hescape

/-- Staging that fails is the whole export, apart from the clean-up. -/
theorem stageCollection_of_error {err : ShareError}
    (hstaged : stageMembers ctx faults disk members dest = (staged, .error err)) :
    stageCollection ctx faults disk members dest = (staged, .error err) := by
  rw [stageCollection, hstaged]

/-- A name that escapes stops the export before the destination is touched. -/
theorem exportCollectionTo_of_escapes (hload : ctx.load hash = .ok members)
    (hescapes : ∃ member ∈ members, Escapes member.1) :
    ∃ err, (exportCollectionTo ctx faults disk hash dest).2 = .error err ∧
      (exportCollectionTo ctx faults disk hash dest).1.lookup dest.path =
        disk.lookup dest.path := by
  have hcleared : AgreeBeside dest.partialSibling disk
      (disk.removeDirAll faults.remove dest.partialSibling).1 := agreeBeside_removeDirAll _ _ _
  obtain ⟨hstaged, -, -⟩ := @staged_of_stageMembers ctx faults
    (disk.removeDirAll faults.remove dest.partialSibling).1 dest members
  rw [exportCollectionTo, hload]
  rcases hresult : stageMembers ctx faults
    (disk.removeDirAll faults.remove dest.partialSibling).1 members dest with ⟨staged, result⟩
  rw [hresult] at hstaged
  cases result with
  | ok total =>
      have hstageable : Stageable ctx faults
          (disk.removeDirAll faults.remove dest.partialSibling).1 members dest :=
        stageMembers_ok_iff.mp ⟨total, by rw [hresult]⟩
      exact absurd hstageable (not_stageable_of_escapes hescapes)
  | error err =>
      simp only [stageCollection_of_error hresult]
      refine ⟨err, rfl, lookup_dest_of_agree ?_⟩
      exact (hcleared.trans hstaged).trans (agreeBeside_dropPath faults staged _)

end Written

/-- Whatever the names of the members, an export writes nothing but its staging directory,
what lies under it, the destination and missing directories above the destination; a name
that escapes makes it fail, with the destination as it was. -/
theorem export_contained (ctx : ExportCtx) (faults : Faults) (disk : FileSystem) (hash : Hash)
    (dest : Dest) :
    (∀ made ∈ (exportCollectionTo ctx faults disk hash dest).1.written,
        made ∈ disk.written ∨ dest.partialSibling <+: made ∨ made = dest.path ∨
          MissingAncestor disk dest made) ∧
      ∀ members, ctx.load hash = .ok members → (∃ member ∈ members, Escapes member.1) →
        (∃ err, (exportCollectionTo ctx faults disk hash dest).2 = .error err ∧
          (exportCollectionTo ctx faults disk hash dest).1.lookup dest.path =
            disk.lookup dest.path) ∧
        ((∀ path, faults.cleanup path = none) →
          (exportCollectionTo ctx faults disk hash dest).1.lookup dest.partialSibling =
            none) := by
  refine ⟨fun made => mem_written_exportCollectionTo, fun members hload hescapes =>
    ⟨exportCollectionTo_of_escapes hload hescapes, fun hcleanup => ?_⟩⟩
  rw [exportCollectionTo, hload]
  exact lookup_dropPath hcleanup _ dest

/-- A member that is named after the directory above is turned away beside an old download. -/
theorem export_contained_of_parent_component :
    let out := Utf8.encode "out"
    let dest : Dest := ⟨[], out⟩
    let old : FileTree OsString (List UInt8) := .dir [(Utf8.encode "app", .file [1])]
    let disk : FileSystem := ⟨[(out, old)], []⟩
    let ctx : ExportCtx :=
      ⟨fun _ => .ok [("app", .filled 32 7), ("lib/../../evil", .filled 32 8)],
        fun _ => some [3], String.quote⟩
    let faults : Faults :=
      ⟨fun _ => none, fun _ => none, fun _ => none, none, fun _ => none⟩
    let outcome := exportCollectionTo ctx faults disk (.filled 32 9) dest
    (∃ err, outcome.2 = .error err ∧ outcome.1.lookup dest.path = disk.lookup dest.path) ∧
      outcome.1.lookup dest.partialSibling = none := by
  intro out dest old disk ctx faults outcome
  have hescapes : ∃ member ∈ [("app", FixedBytes.filled 32 7),
      ("lib/../../evil", FixedBytes.filled 32 8)], Escapes member.1 :=
    ⟨("lib/../../evil", FixedBytes.filled 32 8), by simp, .inr (by decide)⟩
  have hcontained := (export_contained ctx faults disk (.filled 32 9) dest).2 _ rfl hescapes
  exact ⟨hcontained.1, hcontained.2 fun _ => rfl⟩

/-- A directory above the destination that is missing is made as well, and a staging
directory that cannot be removed stays behind. -/
theorem export_makes_missing_parent :
    let home := Utf8.encode "home"
    let dest : Dest := ⟨[home], Utf8.encode "out"⟩
    let blank : FileSystem := ⟨[], []⟩
    let safe : ExportCtx :=
      ⟨fun _ => .ok [("app", .filled 32 7)], fun _ => some [3], String.quote⟩
    let unsafeName : ExportCtx :=
      ⟨fun _ => .ok [("../evil", .filled 32 7)], fun _ => some [3], String.quote⟩
    let calm : Faults :=
      ⟨fun _ => none, fun _ => none, fun _ => none, none, fun _ => none⟩
    let stuck : Faults :=
      { calm with cleanup := fun _ => some "Permission denied (os error 13)" }
    ([home] ∈ (exportCollectionTo safe calm blank (.filled 32 9) dest).1.written ∧
        [home] ∉ blank.written ∧ ¬ dest.partialSibling <+: [home] ∧ [home] ≠ dest.path) ∧
      (exportCollectionTo unsafeName stuck blank (.filled 32 9) dest).1.lookup
        dest.partialSibling = some (.dir []) := by
  refine ⟨⟨?_, ?_, ?_, ?_⟩, ?_⟩
  · decide
  · decide
  · decide
  · decide
  · rfl

end RadicleArtifact.Node
