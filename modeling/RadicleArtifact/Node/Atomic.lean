import RadicleArtifact.Node.Staging

/-!
# Exports that fail

An export of a blob that fails leaves the destination as it was.  So does an export of a
collection, up to the point where it removes an existing destination: from there on, a
removal or the rename that fails leaves neither the old directory nor the new one.
-/

namespace RadicleArtifact.Node

open RadicleArtifact.Core
open RadicleArtifact.Library
open RadicleArtifact.Library.Disk
open RadicleArtifact.Library.FileTree (removals removeTree)
open RadicleArtifact.Library.Utf8 (OsString)

variable {ctx : ExportCtx} {faults : Faults} {disk after staged : FileSystem} {hash : Hash}
  {dest : Dest} {members : List (String × Hash)}

/-! ## The staging path -/

theorem agreeBeside_dropPath (faults : Faults) (disk : FileSystem) (path : Location) :
    AgreeBeside path disk (dropPath faults disk path) :=
  (agreeBeside_removeFile _ _ _).trans (agreeBeside_removeDirAll _ _ _)

theorem written_dropPath (faults : Faults) (disk : FileSystem) (path : Location) :
    (dropPath faults disk path).written = disk.written := by
  rw [dropPath, written_removeDirAll, written_removeFile]

/-- Changes at the staging path leave the destination alone. -/
theorem lookup_dest_of_agree (hagree : AgreeBeside dest.partialSibling disk after) :
    after.lookup dest.path = disk.lookup dest.path :=
  hagree dest.path dest.not_partialSibling_prefix dest.not_path_prefix

/-- Staging stays in the staging directory, which is there in the end if it succeeds. -/
theorem staged_of_stageMembers :
    AgreeBeside dest.partialSibling disk (stageMembers ctx faults disk members dest).1 ∧
      (∀ made ∈ (stageMembers ctx faults disk members dest).1.written, made ∈ disk.written ∨
        dest.partialSibling <+: made ∨ made <+: dest.partialSibling ∧ disk.lookup made = none) ∧
      (∀ total, (stageMembers ctx faults disk members dest).2 = .ok total →
        IsDirAt (stageMembers ctx faults disk members dest).1 dest.partialSibling) := by
  have hwhole : dest.partialSibling <+: dest.partialSibling ++ [] := List.prefix_append _ _
  have hmade : AgreeBeside dest.partialSibling disk
      (createDirAll faults disk dest.partialSibling).1 := agreeBeside_making hwhole
  have hmissing : ∀ made ∈ (createDirAll faults disk dest.partialSibling).1.written,
      made ∈ disk.written ∨ made <+: dest.partialSibling ∧ disk.lookup made = none :=
    fun made => missing_of_making
  rw [stageMembers]
  rcases hcreated : createDirAll faults disk dest.partialSibling with ⟨made, result⟩
  rw [hcreated] at hmade hmissing
  cases result with
  | error err => exact ⟨hmade, fun path hpath => (hmissing path hpath).imp_right .inr, by simp⟩
  | ok created =>
      have hdir : IsDirAt (createDirAll faults disk dest.partialSibling).1 dest.partialSibling :=
        isDirAt_of_making (by rw [hcreated])
      rw [hcreated] at hdir
      have hloop : StaysIn dest.partialSibling made
            (exportMembers ctx faults dest.partialSibling 0 0 made members).1 ∧
          (∀ bytes, (exportMembers ctx faults dest.partialSibling 0 0 made members).2 = .ok bytes →
            IsDirAt (exportMembers ctx faults dest.partialSibling 0 0 made members).1
              dest.partialSibling) := staysIn_exportMembers hdir
      dsimp only
      rcases hexported : exportMembers ctx faults dest.partialSibling 0 0 made members with
        ⟨staged, outcome⟩
      rw [hexported] at hloop
      have hwritten : ∀ path ∈ staged.written, path ∈ disk.written ∨
          dest.partialSibling <+: path ∨
            path <+: dest.partialSibling ∧ disk.lookup path = none := by
        intro path hpath
        rcases hloop.1.written path hpath with hbefore | hbelow
        · exact (hmissing path hbefore).imp_right .inr
        · exact .inr (.inl hbelow)
      cases outcome with
      | error err => exact ⟨hmade.trans hloop.1.beside, hwritten, by simp⟩
      | ok total => exact ⟨hmade.trans hloop.1.beside, hwritten, fun _ _ => hloop.2 total rfl⟩

/-- The members can be staged. -/
structure Stageable (ctx : ExportCtx) (faults : Faults) (disk : FileSystem)
    (members : List (String × Hash)) (dest : Dest) : Prop where
  made : (createDirAll faults disk dest.partialSibling).2 = .ok ()
  exportable : Exportable ctx faults dest.partialSibling 0
    (createDirAll faults disk dest.partialSibling).1 members

theorem stageMembers_ok_iff :
    (∃ total, (stageMembers ctx faults disk members dest).2 = .ok total) ↔
      Stageable ctx faults disk members dest := by
  rw [stageMembers]
  rcases hcreated : createDirAll faults disk dest.partialSibling with ⟨made, result⟩
  cases result with
  | error err =>
      refine iff_of_false (by simp) fun hstageable => ?_
      have hok := hstageable.made
      simp [hcreated] at hok
  | ok created =>
      have hstageable : Stageable ctx faults disk members dest ↔
          Exportable ctx faults dest.partialSibling 0 made members := by
        constructor
        · intro hstageable
          simpa [hcreated] using hstageable.exportable
        · intro hexportable
          exact ⟨by rw [hcreated], by simpa [hcreated] using hexportable⟩
      rw [hstageable, ← @exportMembers_ok_iff ctx faults _ _ _ _ 0]
      dsimp only
      rcases exportMembers ctx faults dest.partialSibling 0 0 made members with ⟨staged, outcome⟩
      cases outcome <;> simp

/-! ## The swap -/

section Cleanup

variable (hcleanup : ∀ path, faults.cleanup path = none)
include hcleanup

theorem lookup_dropPath (disk : FileSystem) (dest : Dest) :
    (dropPath faults disk dest.partialSibling).lookup dest.partialSibling = none :=
  lookup_removeDirAll_removeFile hcleanup disk dest.partialSibling_ne_nil

end Cleanup

end RadicleArtifact.Node
