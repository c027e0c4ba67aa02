import RadicleArtifact.Core.ContentId
import RadicleArtifact.Library.Disk
import RadicleArtifact.Node.Fetch

/-!
# Exporting to disk

A blob is written to a hidden sibling of the destination and renamed onto it.  A collection
is written member by member into a hidden sibling directory, which takes the place of the
destination once all of it is there.  The sibling is removed on every way out.

What the file system makes fail is a parameter of the run, one answer for each directory
made, entry removed and member written.
-/

namespace RadicleArtifact.Node

open RadicleArtifact.Core
open RadicleArtifact.Library
open RadicleArtifact.Library.Utf8 (OsString)

abbrev FileSystem := Disk OsString (List UInt8)

abbrev Location := List OsString

/-- A destination with a normal last component, in a directory as the kernel finds it. -/
structure Dest where
  parent : Location
  name : OsString

/-- The complete blobs and the collections that an export reads, and how it prints names. -/
structure ExportCtx where
  load : Hash → Except String (List (String × Hash))
  bytes : Hash → Option (List UInt8)
  debugText : String → String

/-- What fails in a run. -/
structure Faults where
  mkdir : Location → Option String
  /-- By the position of the member. -/
  write : ℕ → Option (WriteFailure (List UInt8))
  remove : Location → Option String
  rename : Option String
  /-- Removals of the staging path on the way out. -/
  cleanup : Location → Option String

def Faults.none : Faults := ⟨fun _ => .none, fun _ => .none, fun _ => .none, .none, fun _ => .none⟩

/-! ## Names of members -/

/-- `std::path::Component` -/
inductive Component where
  | rootDir
  | curDir
  | parentDir
  | normal (name : String)
  deriving DecidableEq

/-- A component that is not the first; empty ones and `.` are skipped. -/
def laterComponent (piece : String) : Option Component :=
  if piece = "" ∨ piece = "." then none
  else if piece = ".." then some .parentDir
  else some (.normal piece)

/-- `Path::components` -/
def components (name : String) : List Component :=
  match namePieces name with
  | [] => []
  | first :: rest =>
      let later := rest.filterMap laterComponent
      if first = "" ∧ rest ≠ [] then .rootDir :: later
      else if first = "." then .curDir :: later
      else (laterComponent first).toList ++ later

def descend (here : Location) : Component → Location
  | .rootDir => []
  | .curDir => here
  | .parentDir => here.dropLast
  | .normal name => here ++ [Utf8.encode name]

/-- A joined path: where it leads, and whether it can name a file. -/
structure Target where
  location : Location
  namesFile : Bool

/-- `base.join(name)`; a path that ends in a slash or a dot names no file. -/
def joinName (base : Location) (name : String) : Target where
  location := (components name).foldl descend base
  namesFile := (namePieces name).getLast?.all fun piece => piece ≠ "" ∧ piece ≠ "." ∧ piece ≠ ".."

def Component.staysBelow : Component → Bool
  | .normal _ | .curDir => true
  | .rootDir | .parentDir => false

/-- Join a name below the base, unless it is absolute or has a parent component. -/
def safeJoin (base : Location) (name : String) : Option Target :=
  if (components name).all Component.staysBelow then some (joinName base name) else none

/-! ## The export -/

namespace Dest

def path (dest : Dest) : Location :=
  dest.parent ++ [dest.name]

/-- `.<name>.rad-partial` -/
def partialName (dest : Dest) : OsString :=
  Utf8.encode ("." ++ Utf8.lossy dest.name ++ ".rad-partial")

/-- Hidden sibling of the destination. -/
def partialSibling (dest : Dest) : Location :=
  dest.parent ++ [dest.partialName]

/-- `display()` -/
def text (dest : Dest) : String :=
  "/" ++ relativeName dest.path

end Dest

def nulInName : String := "file name contained an unexpected NUL byte"

/-- No system call takes a path with a zero byte. -/
def hasNul (path : Location) : Bool :=
  path.any fun name => name.contains 0

/-- `create_dir_all`, of a path as a system call takes it. -/
def createDirAll (faults : Faults) (disk : FileSystem) (path : Location) :
    FileSystem × Except String Unit :=
  if hasNul path then (disk, .error nulInName) else disk.createDirAll faults.mkdir path

/-- Write a blob to a target: make the directory it stands in, then write the file. -/
def writeBlob (ctx : ExportCtx) (faults : Faults) (index : ℕ) (disk : FileSystem) (hash : Hash)
    (target : Target) : FileSystem × Except String ℕ :=
  match createDirAll faults disk target.location.dropLast with
  | (made, .error err) => (made, .error err)
  | (made, .ok ()) =>
      match ctx.bytes hash with
      | none => (made, .error "cannot export partial entry")
      | some contents =>
          if !target.namesFile then (made, .error Disk.isADirectory)
          else if hasNul target.location then (made, .error nulInName)
          else
            match made.write target.location contents (faults.write index) with
            | (after, .error err) => (after, .error err)
            | (after, .ok ()) => (after, .ok contents.length)

/-- Export one blob to a target; its size. -/
def exportStreamed (ctx : ExportCtx) (faults : Faults) (index : ℕ) (disk : FileSystem)
    (hash : Hash) (target : Target) : FileSystem × Except ShareError ℕ :=
  match writeBlob ctx faults index disk hash target with
  | (after, .error err) => (after, .error (.iroh ("export: " ++ err)))
  | (after, .ok bytes) => (after, .ok bytes)

/-- Remove a path on the way out, whatever stands there. -/
def dropPath (faults : Faults) (disk : FileSystem) (path : Location) : FileSystem :=
  ((disk.removeFile faults.cleanup path).1.removeDirAll faults.cleanup path).1

/-- The error of an export that could not be staged. -/
def exportFailed (dest : Dest) (err : ShareError) : ShareError :=
  .iroh ("failed to export from the iroh store to '" ++ dest.text ++ "': " ++ err.message)

/-- Rename the staging path onto the destination. -/
def renameOnto (faults : Faults) (disk : FileSystem) (dest : Dest) :
    FileSystem × Except ShareError Unit :=
  match disk.rename faults.rename dest.parent dest.partialName dest.name with
  | (after, .error err) => (after, .error (.io err))
  | (after, .ok ()) => (after, .ok ())

section Export

variable (ctx : ExportCtx) (faults : Faults)

/-- Write the blob to the staging path and rename it. -/
def stageBlob (disk : FileSystem) (hash : Hash) (dest : Dest) :
    FileSystem × Except ShareError ℕ :=
  match exportStreamed ctx faults 0 disk hash ⟨dest.partialSibling, true⟩ with
  | (staged, .error err) => (staged, .error (exportFailed dest err))
  | (staged, .ok bytes) =>
      match renameOnto faults staged dest with
      | (after, .error err) => (after, .error err)
      | (after, .ok ()) => (after, .ok bytes)

/-- Export a single blob, atomically. -/
def exportBlobTo (disk : FileSystem) (hash : Hash) (dest : Dest) :
    FileSystem × Except ShareError ℕ :=
  let (after, result) := stageBlob ctx faults disk hash dest
  (dropPath faults after dest.partialSibling, result)

/-- Export one member into the directory, unless its name is unsafe. -/
def exportMember (base : Location) (index : ℕ) (disk : FileSystem) (member : String × Hash) :
    FileSystem × Except ShareError ℕ :=
  match safeJoin base member.1 with
  | none =>
      (disk, .error (.iroh ("unsafe collection member name: " ++ ctx.debugText member.1)))
  | some target =>
      match createDirAll faults disk target.location.dropLast with
      | (made, .error err) => (made, .error (.io err))
      | (made, .ok ()) =>
          match exportStreamed ctx faults index made member.2 target with
          | (after, .error err) =>
              (after, .error (.iroh ("export '" ++ member.1 ++ "': " ++ err.message)))
          | (after, .ok bytes) => (after, .ok bytes)

/-- Export the members one after the other, from the given position and total on. -/
def exportMembers (base : Location) : ℕ → ℕ → FileSystem → List (String × Hash) →
    FileSystem × Except ShareError ℕ
  | _, total, disk, [] => (disk, .ok total)
  | index, total, disk, member :: members =>
      match exportMember ctx faults base index disk member with
      | (after, .error err) => (after, .error err)
      | (after, .ok bytes) =>
          exportMembers base (index + 1) (saturatingAdd total bytes) after members

/-- Put the staging directory in the place of the destination. -/
def swap (disk : FileSystem) (dest : Dest) : FileSystem × Except ShareError Unit :=
  let replaced :=
    if disk.pathExists dest.path then disk.removeDirAll faults.remove dest.path
    else (disk, .ok ())
  match replaced with
  | (removed, .error err) => (removed, .error (.io err))
  | (removed, .ok ()) => renameOnto faults removed dest

/-- Make the staging directory and export the members into it. -/
def stageMembers (disk : FileSystem) (members : List (String × Hash)) (dest : Dest) :
    FileSystem × Except ShareError ℕ :=
  match createDirAll faults disk dest.partialSibling with
  | (made, .error err) => (made, .error (.io err))
  | (made, .ok ()) =>
      match exportMembers ctx faults dest.partialSibling 0 0 made members with
      | (staged, .error err) => (staged, .error (exportFailed dest err))
      | (staged, .ok total) => (staged, .ok total)

def stageCollection (disk : FileSystem) (members : List (String × Hash)) (dest : Dest) :
    FileSystem × Except ShareError ℕ :=
  match stageMembers ctx faults disk members dest with
  | (staged, .error err) => (staged, .error err)
  | (staged, .ok total) =>
      match swap faults staged dest with
      | (after, .error err) => (after, .error err)
      | (after, .ok ()) => (after, .ok total)

/-- Export a collection.  What an earlier export left at the staging path is removed first,
as far as that goes. -/
def exportCollectionTo (disk : FileSystem) (hash : Hash) (dest : Dest) :
    FileSystem × Except ShareError ℕ :=
  match ctx.load hash with
  | .error err => (disk, .error (.iroh ("load collection: " ++ err)))
  | .ok members =>
      let cleared := (disk.removeDirAll faults.remove dest.partialSibling).1
      let (after, result) := stageCollection ctx faults cleared members dest
      (dropPath faults after dest.partialSibling, result)

end Export

end RadicleArtifact.Node
