import RadicleArtifact.Library.TreeChange

/-!
# A file system

The operations of a file system may fail where the tree does not allow them, or because the
system makes them fail, and one that makes or removes several entries leaves what it has
done so far.
-/

namespace RadicleArtifact.Library

/-- A file system: its root directory, and the paths at which entries were made or written
so far. -/
structure Disk (Name Contents : Type) where
  entries : List (Name × FileTree Name Contents)
  written : List (List Name)

/-- A write that fails, and what it may leave at the path. -/
structure WriteFailure (Contents : Type) where
  message : String
  leftover : Option Contents

namespace Disk

open FileTree

variable {Name Contents : Type} [DecidableEq Name]

def notFound : String := "No such file or directory (os error 2)"

def fileExists : String := "File exists (os error 17)"

def notADirectory : String := "Not a directory (os error 20)"

def isADirectory : String := "Is a directory (os error 21)"

def noSuchDevice : String := "No such device or address (os error 6)"

def directoryNotEmpty : String := "Directory not empty (os error 39)"

def permissionDenied : String := "Permission denied (os error 13)"

def tree (disk : Disk Name Contents) : FileTree Name Contents :=
  .dir disk.entries

def lookup (disk : Disk Name Contents) (path : List Name) : Option (FileTree Name Contents) :=
  disk.tree.lookup path

/-- The disk with another tree at its root. -/
def withTree (disk : Disk Name Contents) : FileTree Name Contents → Disk Name Contents
  | .dir entries => { disk with entries := entries }
  | _ => disk

def set (disk : Disk Name Contents) (path : List Name) (node : FileTree Name Contents) :
    Disk Name Contents :=
  disk.withTree (put node disk.tree path)

def erase (disk : Disk Name Contents) (path : List Name) : Disk Name Contents :=
  disk.withTree (disk.tree.erase path)

def log (disk : Disk Name Contents) (path : List Name) : Disk Name Contents :=
  { disk with written := disk.written ++ [path] }

/-- `Path::exists`, which follows a link. -/
def pathExists (disk : Disk Name Contents) (path : List Name) : Bool :=
  match disk.lookup path with
  | none => false
  | some (.special (.link leads)) => leads
  | some _ => true

/-- Why no directory is made at the path of an entry, or further down. -/
def blockedBy (node : FileTree Name Contents) (last : Bool) : String :=
  match node with
  | .special (.link false) => fileExists
  | _ => if last then fileExists else notADirectory

/-- Make the directories of a path that are missing, from the top. -/
def createDirs (fault : List Name → Option String) :
    Disk Name Contents → List Name → List Name → Disk Name Contents × Except String Unit
  | disk, _, [] => (disk, .ok ())
  | disk, here, name :: rest =>
      let path := here ++ [name]
      match disk.lookup path with
      | some (.dir _) => createDirs fault disk path rest
      | some node => (disk, .error (blockedBy node rest.isEmpty))
      | none =>
          match fault path with
          | some err => (disk, .error err)
          | none => createDirs fault ((disk.set path (.dir [])).log path) path rest

/-- `create_dir_all` -/
def createDirAll (fault : List Name → Option String) (disk : Disk Name Contents)
    (path : List Name) : Disk Name Contents × Except String Unit :=
  createDirs fault disk [] path

/-- Why an entry that is neither a file nor a directory is not opened for writing. -/
def openError : SpecialKind → String
  | .link true => permissionDenied
  | .link false => notFound
  | .device => noSuchDevice

/-- Whether a file can be opened for writing at the path. -/
def writable (disk : Disk Name Contents) (path : List Name) : Except String Unit :=
  match disk.lookup path.dropLast with
  | some (.dir _) =>
      match disk.lookup path with
      | some (.dir _) => .error isADirectory
      | some (.special kind) => .error (openError kind)
      | _ => .ok ()
  | some _ => .error notADirectory
  | none => .error notFound

def write (disk : Disk Name Contents) (path : List Name) (contents : Contents)
    (failure : Option (WriteFailure Contents)) : Disk Name Contents × Except String Unit :=
  match disk.writable path with
  | .error err => (disk, .error err)
  | .ok () =>
      match failure with
      | none => ((disk.set path (.file contents)).log path, .ok ())
      | some failure =>
          match failure.leftover with
          | some leftover =>
              ((disk.set path (.file leftover)).log path, .error failure.message)
          | none => (disk, .error failure.message)

/-- `remove_file` -/
def removeFile (fault : List Name → Option String) (disk : Disk Name Contents)
    (path : List Name) : Disk Name Contents × Except String Unit :=
  match disk.lookup path with
  | none => (disk, .error notFound)
  | some (.dir _) => (disk, .error isADirectory)
  | some _ =>
      match fault path with
      | some err => (disk, .error err)
      | none => (disk.erase path, .ok ())

/-- `remove_dir_all`, which takes away a link itself. -/
def removeDirAll (fault : List Name → Option String) (disk : Disk Name Contents)
    (path : List Name) : Disk Name Contents × Except String Unit :=
  match disk.lookup path with
  | none => (disk, .error notFound)
  | some (.dir entries) =>
      match removeTree fault path (.dir entries) with
      | some (left, err) => (disk.set path left, .error err)
      | none => (disk.erase path, .ok ())
  | some (.special (.link _)) => disk.removeFile fault path
  | some _ => (disk, .error notADirectory)

/-- Whether an entry can take the place of another. -/
def replaces (node : FileTree Name Contents) : Option (FileTree Name Contents) →
    Except String Unit
  | none => .ok ()
  | some (.dir []) => if node.isDir then .ok () else .error isADirectory
  | some (.dir _) => .error (if node.isDir then directoryNotEmpty else isADirectory)
  | some _ => if node.isDir then .error notADirectory else .ok ()

/-- `rename`, from one name to another in the same directory. -/
def rename (fault : Option String) (disk : Disk Name Contents) (parent : List Name)
    (source dest : Name) : Disk Name Contents × Except String Unit :=
  match fault with
  | some err => (disk, .error err)
  | none =>
      match disk.lookup (parent ++ [source]) with
      | none => (disk, .error notFound)
      | some node =>
          match replaces node (disk.lookup (parent ++ [dest])) with
          | .error err => (disk, .error err)
          | .ok () =>
              (((disk.erase (parent ++ [source])).set (parent ++ [dest]) node).log
                (parent ++ [dest]), .ok ())

/-! ## What single changes do -/

section Change

variable {disk : Disk Name Contents} {path other : List Name} {node : FileTree Name Contents}

theorem lookup_nil (disk : Disk Name Contents) : disk.lookup [] = some (.dir disk.entries) :=
  FileTree.lookup_nil _

omit [DecidableEq Name] in
@[simp]
theorem written_withTree (tree : FileTree Name Contents) :
    (disk.withTree tree).written = disk.written := by
  cases tree <;> rfl

@[simp]
theorem written_set : (disk.set path node).written = disk.written :=
  written_withTree _

@[simp]
theorem written_erase : (disk.erase path).written = disk.written :=
  written_withTree _

omit [DecidableEq Name] in
@[simp]
theorem written_log : (disk.log path).written = disk.written ++ [path] := rfl

@[simp]
theorem lookup_log : (disk.log path).lookup other = disk.lookup other := rfl

theorem tree_set (hne : path ≠ []) : (disk.set path node).tree = put node disk.tree path := by
  cases path with
  | nil => contradiction
  | cons name path => rfl

theorem tree_erase (disk : Disk Name Contents) (path : List Name) :
    (disk.erase path).tree = disk.tree.erase path := by
  rw [erase, tree, tree, FileTree.erase.eq_def]
  cases path with
  | nil => rfl
  | cons name path =>
      cases path with
      | nil => rfl
      | cons next path =>
          dsimp only
          cases disk.entries.lookup name <;> rfl

/-- Above what exists there are directories. -/
theorem exists_dir_of_prefix (hpath : disk.lookup path = some node) (hother : other <+: path)
    (hne : other ≠ path) : ∃ entries, disk.lookup other = some (.dir entries) := by
  obtain ⟨rest, rfl⟩ := hother
  rw [lookup, lookup_append] at hpath
  rw [lookup]
  cases hfound : disk.tree.lookup other with
  | none =>
      rw [hfound] at hpath
      contradiction
  | some found =>
      rw [hfound, Option.bind_some] at hpath
      cases rest with
      | nil => exact absurd (List.append_nil other).symm hne
      | cons name rest =>
          cases found with
          | dir entries => exact ⟨entries, rfl⟩
          | file contents => contradiction
          | special kind => contradiction

theorem passable_of_lookup (hpath : disk.lookup path = some node) : Passable disk.tree path := by
  intro above habove hne found hfound
  obtain ⟨entries, hentries⟩ := exists_dir_of_prefix hpath habove hne
  rw [lookup, hfound] at hentries
  rw [Option.some.inj hentries]
  rfl

theorem passable_child {entries : List (Name × FileTree Name Contents)}
    (hpath : disk.lookup path = some (.dir entries)) (name : Name) :
    Passable disk.tree (path ++ [name]) := by
  intro above habove hne found hfound
  rcases List.prefix_concat_iff.mp habove with heq | hinitial
  · exact absurd heq hne
  · by_cases heq : above = path
    · rw [heq, ← lookup, hpath] at hfound
      rw [← Option.some.inj hfound]
      rfl
    · exact passable_of_lookup hpath above hinitial heq found hfound

theorem lookup_set_append (hne : path ≠ []) (hpassable : Passable disk.tree path)
    (rest : List Name) : (disk.set path node).lookup (path ++ rest) = node.lookup rest := by
  rw [lookup, tree_set hne, lookup_put_append hpassable]

theorem lookup_set_self (hne : path ≠ []) (hpassable : Passable disk.tree path) :
    (disk.set path node).lookup path = some node := by
  rw [lookup, tree_set hne, lookup_put_self hpassable]

theorem lookup_set_of_not_prefix (hpath : ¬ path <+: other) (hother : ¬ other <+: path) :
    (disk.set path node).lookup other = disk.lookup other := by
  by_cases hne : path = []
  · exact absurd (hne ▸ List.nil_prefix) hpath
  · rw [lookup, tree_set hne, lookup_put_of_not_prefix hpath hother, lookup]

theorem lookup_erase_self (disk : Disk Name Contents) (hne : path ≠ []) :
    (disk.erase path).lookup path = none := by
  rw [lookup, tree_erase, FileTree.lookup_erase_self disk.tree hne]

theorem lookup_erase_of_not_prefix (hpath : ¬ path <+: other) (hother : ¬ other <+: path) :
    (disk.erase path).lookup other = disk.lookup other := by
  rw [lookup, tree_erase, FileTree.lookup_erase_of_not_prefix hpath hother, lookup]

end Change

/-! ## Making directories -/

section Create

variable {fault : List Name → Option String} {disk : Disk Name Contents}
  {here rest path other : List Name}

/-- Everything on the way down to the path is a directory, or missing and can be made. -/
def Creatable (fault : List Name → Option String) (disk : Disk Name Contents)
    (path : List Name) : Prop :=
  ∀ above, above <+: path → (∃ entries, disk.lookup above = some (.dir entries)) ∨
    disk.lookup above = none ∧ fault above = none

/-- What a run of `createDirs` does, from a directory down. -/
structure Created (fault : List Name → Option String) (disk : Disk Name Contents)
    (here rest : List Name) (outcome : Disk Name Contents × Except String Unit) : Prop where
  frame : ∀ other, ¬ other <+: here ++ rest → outcome.1.lookup other = disk.lookup other
  written : ∀ path ∈ outcome.1.written, path ∈ disk.written ∨
    path <+: here ++ rest ∧ disk.lookup path = none
  ok_iff : outcome.2 = .ok () ↔ Creatable fault disk (here ++ rest)
  dirs : outcome.2 = .ok () → ∀ above, above <+: here ++ rest →
    ∃ entries, outcome.1.lookup above = some (.dir entries)

theorem created_nil {entries : List (Name × FileTree Name Contents)}
    (hhere : disk.lookup here = some (.dir entries)) :
    Created fault disk here [] (disk, .ok ()) := by
  have hdirs : ∀ above, above <+: here ++ [] →
      ∃ entries, disk.lookup above = some (.dir entries) := by
    intro above habove
    rw [List.append_nil] at habove
    by_cases heq : above = here
    · exact ⟨entries, heq ▸ hhere⟩
    · exact exists_dir_of_prefix hhere habove heq
  exact ⟨fun _ _ => rfl, fun _ hmem => .inl hmem,
    ⟨fun _ above habove => .inl (hdirs above habove), fun _ => rfl⟩, fun _ => hdirs⟩

/-- A path that cannot be passed stops the run. -/
theorem created_stuck (hpath : path <+: here ++ rest)
    (hdir : ∀ entries, disk.lookup path ≠ some (.dir entries))
    (hmissing : disk.lookup path = none → fault path ≠ none) (err : String) :
    Created fault disk here rest (disk, .error err) where
  frame _ _ := rfl
  written _ hmem := .inl hmem
  ok_iff := by
    constructor
    · intro hok
      contradiction
    · intro hcreatable
      rcases hcreatable path hpath with ⟨entries, hentries⟩ | ⟨hnone, hfault⟩
      · exact absurd hentries (hdir entries)
      · exact absurd hfault (hmissing hnone)
  dirs hok := by contradiction

/-- A directory that was just made. -/
theorem lookup_made (hpassable : Passable disk.tree path) (hne : path ≠ [])
    (hnone : disk.lookup path = none) (hother : ¬ other <+: path) :
    (disk.set path (.dir [])).lookup other = disk.lookup other := by
  by_cases hpath : path <+: other
  · obtain ⟨below, rfl⟩ := hpath
    rw [lookup_set_append hne hpassable, lookup, lookup_append, ← lookup, hnone, Option.bind_none]
    cases below with
    | nil =>
        rw [List.append_nil] at hother
        exact absurd List.prefix_rfl hother
    | cons name below => rfl
  · exact lookup_set_of_not_prefix hpath hother

theorem isDir_of_made (hpassable : Passable disk.tree path) (hne : path ≠ [])
    (hother : other <+: path) :
    ∃ entries, (disk.set path (.dir [])).lookup other = some (.dir entries) := by
  by_cases heq : other = path
  · rw [heq]
    exact ⟨[], lookup_set_self hne hpassable⟩
  · rw [lookup, tree_set hne]
    exact isDir_lookup_put hpassable hother heq

/-- One directory is made, the rest follows. -/
theorem Created.of_made (hpassable : Passable disk.tree path) (hne : path ≠ [])
    (hnone : disk.lookup path = none) (hfault : fault path = none)
    (hhere : ∀ above, above <+: path → above ≠ path →
      ∃ entries, disk.lookup above = some (.dir entries))
    {outcome : Disk Name Contents × Except String Unit}
    (hcreated : Created fault ((disk.set path (.dir [])).log path) path rest outcome) :
    Created fault disk path rest outcome where
  frame other hother := by
    have hbeside : ¬ other <+: path :=
      fun hinitial => hother (hinitial.trans (List.prefix_append _ _))
    rw [hcreated.frame other hother, lookup_log, lookup_made hpassable hne hnone hbeside]
  written made hmade := by
    rcases hcreated.written made hmade with hbefore | ⟨hinitial, hmissing⟩
    · rw [written_log, written_set, List.mem_append, List.mem_singleton] at hbefore
      rcases hbefore with hold | rfl
      · exact .inl hold
      · exact .inr ⟨List.prefix_append _ _, hnone⟩
    · rw [lookup_log] at hmissing
      by_cases habove : made <+: path
      · obtain ⟨entries, hentries⟩ := isDir_of_made hpassable hne habove
        rw [hentries] at hmissing
        contradiction
      · exact .inr ⟨hinitial, by rw [← hmissing, lookup_made hpassable hne hnone habove]⟩
  ok_iff := by
    rw [hcreated.ok_iff]
    refine forall₂_congr fun above _ => ?_
    rw [lookup_log]
    by_cases habove : above <+: path
    · obtain ⟨entries, hentries⟩ := isDir_of_made hpassable hne habove
      have hbefore : (∃ entries, disk.lookup above = some (.dir entries)) ∨
          disk.lookup above = none ∧ fault above = none := by
        by_cases heq : above = path
        · exact .inr (heq ▸ ⟨hnone, hfault⟩)
        · exact .inl (hhere above habove heq)
      exact iff_of_true (.inl ⟨entries, hentries⟩) hbefore
    · rw [lookup_made hpassable hne hnone habove]
  dirs := hcreated.dirs

theorem created_createDirs {entries : List (Name × FileTree Name Contents)}
    (hhere : disk.lookup here = some (.dir entries)) :
    Created fault disk here rest (createDirs fault disk here rest) := by
  induction rest generalizing disk here entries with
  | nil => exact created_nil hhere
  | cons name rest ih =>
      have hpath : here ++ [name] <+: here ++ name :: rest :=
        ⟨rest, by rw [List.append_assoc, List.singleton_append]⟩
      have hmove : ∀ {before : Disk Name Contents} {outcome},
          Created fault before (here ++ [name]) rest outcome →
            Created fault before here (name :: rest) outcome := by
        intro before outcome hcreated
        have hwhole : (here ++ [name]) ++ rest = here ++ name :: rest := by simp
        exact ⟨hwhole ▸ hcreated.frame, hwhole ▸ hcreated.written, hwhole ▸ hcreated.ok_iff,
          hwhole ▸ hcreated.dirs⟩
      rw [createDirs]
      cases hfound : disk.lookup (here ++ [name]) with
      | none =>
          have hpassable := passable_child hhere name
          have hne : here ++ [name] ≠ [] := by simp
          cases hfault : fault (here ++ [name]) with
          | some err =>
              exact created_stuck hpath (by simp [hfound]) (fun _ => by simp [hfault]) err
          | none =>
              refine hmove (.of_made hpassable hne hfound hfault (fun above habove heq => ?_)
                (ih (lookup_set_self hne hpassable)))
              rcases List.prefix_concat_iff.mp habove with hself | hinitial
              · exact absurd hself heq
              · by_cases hat : above = here
                · exact ⟨entries, hat ▸ hhere⟩
                · exact exists_dir_of_prefix hhere hinitial hat
      | some found =>
          cases found with
          | dir inner => exact hmove (ih hfound)
          | file contents => exact created_stuck hpath (by simp [hfound]) (by simp [hfound]) _
          | special kind => exact created_stuck hpath (by simp [hfound]) (by simp [hfound]) _

/-- `create_dir_all` makes the path exactly if all of it can be made. -/
theorem created_createDirAll (fault : List Name → Option String) (disk : Disk Name Contents)
    (path : List Name) : Created fault disk [] path (disk.createDirAll fault path) :=
  created_createDirs (lookup_nil disk)

theorem createDirs_of_isDir {entries : List (Name × FileTree Name Contents)}
    (hpath : disk.lookup (here ++ rest) = some (.dir entries)) :
    createDirs fault disk here rest = (disk, .ok ()) := by
  induction rest generalizing here with
  | nil => rfl
  | cons name rest ih =>
      have hwhole : here ++ name :: rest = (here ++ [name]) ++ rest := by simp
      rw [hwhole] at hpath
      have hnext : ∃ inner, disk.lookup (here ++ [name]) = some (.dir inner) := by
        cases rest with
        | nil =>
            rw [List.append_nil] at hpath
            exact ⟨entries, hpath⟩
        | cons next rest =>
            exact exists_dir_of_prefix hpath (List.prefix_append _ _) (by simp)
      obtain ⟨inner, hinner⟩ := hnext
      rw [createDirs, hinner]
      exact ih hpath

theorem createDirAll_of_isDir {entries : List (Name × FileTree Name Contents)}
    (hpath : disk.lookup path = some (.dir entries)) :
    disk.createDirAll fault path = (disk, .ok ()) :=
  createDirs_of_isDir hpath

end Create

/-! ## Changes at one path -/

/-- Nothing but what stands at the path, below it or above it has changed. -/
def AgreeBeside (path : List Name) (disk after : Disk Name Contents) : Prop :=
  ∀ other, ¬ path <+: other → ¬ other <+: path → after.lookup other = disk.lookup other

section Beside

variable {disk after later : Disk Name Contents} {path rest : List Name}
  {node : FileTree Name Contents}

theorem AgreeBeside.refl (path : List Name) (disk : Disk Name Contents) :
    AgreeBeside path disk disk := fun _ _ _ => rfl

theorem AgreeBeside.trans (hfirst : AgreeBeside path disk after)
    (hsecond : AgreeBeside path after later) : AgreeBeside path disk later :=
  fun other hpath hother =>
    (hsecond other hpath hother).trans (hfirst other hpath hother)

/-- A change below a path is a change at the path. -/
theorem AgreeBeside.of_append (hagree : AgreeBeside (path ++ rest) disk after) :
    AgreeBeside path disk after := by
  intro other hpath hother
  refine hagree other (fun hbelow => hpath ((List.prefix_append _ _).trans hbelow))
    fun habove => ?_
  rcases List.prefix_or_prefix_of_prefix habove (List.prefix_append path rest) with
    hinitial | hinitial
  · exact hother hinitial
  · exact hpath hinitial

theorem agreeBeside_set (path : List Name) (node : FileTree Name Contents) :
    AgreeBeside path disk (disk.set path node) :=
  fun _ hpath hother => lookup_set_of_not_prefix hpath hother

theorem agreeBeside_erase (disk : Disk Name Contents) (path : List Name) :
    AgreeBeside path disk (disk.erase path) :=
  fun _ hpath hother => lookup_erase_of_not_prefix hpath hother

/-- Making the directories of a path leaves what is not above it. -/
theorem agreeBeside_createDirAll {fault : List Name → Option String} {made : List Name}
    (hmade : ∀ other, other <+: made → ¬ path <+: other → other <+: path) :
    AgreeBeside path disk (disk.createDirAll fault made).1 := by
  intro other hpath hother
  exact (created_createDirAll fault disk made).frame other fun hinitial =>
    hother (hmade other hinitial hpath)

theorem write_cases (disk : Disk Name Contents) (path : List Name) (contents : Contents)
    (failure : Option (WriteFailure Contents)) :
    (disk.write path contents failure).1 = disk ∨
      ∃ bytes, (disk.write path contents failure).1 = (disk.set path (.file bytes)).log path := by
  rw [write.eq_def]
  cases disk.writable path with
  | error err => exact .inl rfl
  | ok opened =>
      cases failure with
      | none => exact .inr ⟨contents, rfl⟩
      | some failure =>
          obtain ⟨message, leftover⟩ := failure
          cases leftover with
          | none => exact .inl rfl
          | some bytes => exact .inr ⟨bytes, rfl⟩

theorem agreeBeside_write (path : List Name) (contents : Contents)
    (failure : Option (WriteFailure Contents)) :
    AgreeBeside path disk (disk.write path contents failure).1 := by
  rcases write_cases disk path contents failure with hsame | ⟨bytes, hset⟩
  · rw [hsame]
    exact .refl path disk
  · rw [hset]
    exact agreeBeside_set path _

theorem mem_written_write {contents : Contents} {failure : Option (WriteFailure Contents)}
    {made : List Name} (hmade : made ∈ (disk.write path contents failure).1.written) :
    made ∈ disk.written ∨ made = path := by
  rcases write_cases disk path contents failure with hsame | ⟨bytes, hset⟩
  · rw [hsame] at hmade
    exact .inl hmade
  · rw [hset] at hmade
    simpa using hmade

theorem writable_eq_ok_iff :
    disk.writable path = .ok () ↔
      (∃ entries, disk.lookup path.dropLast = some (.dir entries)) ∧
        (disk.lookup path = none ∨ ∃ contents, disk.lookup path = some (.file contents)) := by
  rw [writable]
  cases disk.lookup path.dropLast with
  | none => simp
  | some above =>
      cases above with
      | file contents => simp
      | special kind => simp
      | dir entries =>
          cases disk.lookup path with
          | none => simp
          | some found => cases found <;> simp

theorem ne_nil_of_writable (hwritable : disk.writable path = .ok ()) : path ≠ [] := by
  rintro rfl
  rcases (writable_eq_ok_iff.mp hwritable).2 with hnone | ⟨contents, hfile⟩
  · rw [lookup_nil] at hnone
    contradiction
  · rw [lookup_nil] at hfile
    contradiction

theorem passable_of_writable (hwritable : disk.writable path = .ok ()) :
    Passable disk.tree path := by
  obtain ⟨entries, hentries⟩ := (writable_eq_ok_iff.mp hwritable).1
  have hpassable := passable_child hentries (path.getLast (ne_nil_of_writable hwritable))
  rwa [List.dropLast_concat_getLast] at hpassable

/-- Above a file that was written stand directories. -/
theorem isDir_of_written {contents : Contents} {other : List Name}
    (hwritable : disk.writable path = .ok ()) (hother : other <+: path) (hne : other ≠ path) :
    ∃ entries, (disk.set path (.file contents)).lookup other = some (.dir entries) := by
  rw [lookup, tree_set (ne_nil_of_writable hwritable)]
  exact isDir_lookup_put (passable_of_writable hwritable) hother hne

theorem write_eq_ok_iff {contents : Contents} {failure : Option (WriteFailure Contents)} :
    (disk.write path contents failure).2 = .ok () ↔
      disk.writable path = .ok () ∧ failure = none := by
  rw [write.eq_def]
  cases disk.writable path with
  | error err => simp
  | ok opened =>
      cases failure with
      | none => simp
      | some failure =>
          obtain ⟨message, leftover⟩ := failure
          cases leftover <;> simp

theorem write_of_ok {contents : Contents} (hwritable : disk.writable path = .ok ()) :
    disk.write path contents none = ((disk.set path (.file contents)).log path, .ok ()) := by
  rw [write, hwritable]

theorem removeFile_cases (fault : List Name → Option String) (disk : Disk Name Contents)
    (path : List Name) :
    (disk.removeFile fault path).1 = disk ∨ (disk.removeFile fault path).1 = disk.erase path := by
  rw [removeFile]
  cases disk.lookup path with
  | none => exact .inl rfl
  | some found =>
      cases found with
      | dir entries => exact .inl rfl
      | file contents => cases fault path <;> simp
      | special kind => cases fault path <;> simp

theorem removeDirAll_cases (fault : List Name → Option String) (disk : Disk Name Contents)
    (path : List Name) :
    (disk.removeDirAll fault path).1 = disk ∨ (disk.removeDirAll fault path).1 = disk.erase path ∨
      ∃ left, (disk.removeDirAll fault path).1 = disk.set path left := by
  rw [removeDirAll]
  cases disk.lookup path with
  | none => exact .inl rfl
  | some found =>
      cases found with
      | file contents => exact .inl rfl
      | special kind =>
          cases kind with
          | device => exact .inl rfl
          | link leads => exact (removeFile_cases fault disk path).imp_right .inl
      | dir entries =>
          dsimp only
          cases removeTree fault path (.dir entries) with
          | none => exact .inr (.inl rfl)
          | some left => exact .inr (.inr ⟨left.1, rfl⟩)

theorem agreeBeside_removeFile (fault : List Name → Option String) (disk : Disk Name Contents)
    (path : List Name) : AgreeBeside path disk (disk.removeFile fault path).1 := by
  rcases removeFile_cases fault disk path with hsame | herase
  · rw [hsame]
    exact .refl path disk
  · rw [herase]
    exact agreeBeside_erase disk path

theorem agreeBeside_removeDirAll (fault : List Name → Option String)
    (disk : Disk Name Contents) (path : List Name) :
    AgreeBeside path disk (disk.removeDirAll fault path).1 := by
  rcases removeDirAll_cases fault disk path with hsame | herase | ⟨left, hset⟩
  · rw [hsame]
    exact .refl path disk
  · rw [herase]
    exact agreeBeside_erase disk path
  · rw [hset]
    exact agreeBeside_set path left

/-- What is missing above an entry once it is erased was missing before. -/
theorem lookup_eq_none_of_erase {above : List Name} (habove : above <+: path) (hne : above ≠ path)
    (hpath : disk.lookup path = some node)
    (hnone : (disk.erase path).lookup above = none) : disk.lookup above = none := by
  obtain ⟨inner, hinner⟩ := exists_dir_of_prefix hpath habove hne
  obtain ⟨left, hkept⟩ := isDir_lookup_erase habove hne hinner
  rw [lookup, tree_erase, hkept] at hnone
  contradiction

/-- What is missing above a path after a removal there was missing before. -/
theorem lookup_eq_none_of_removeDirAll {fault : List Name → Option String} {above : List Name}
    (habove : above <+: path) (hne : above ≠ path)
    (hnone : (disk.removeDirAll fault path).1.lookup above = none) : disk.lookup above = none := by
  rw [removeDirAll] at hnone
  cases hfound : disk.lookup path with
  | none => simpa only [hfound] using hnone
  | some found =>
      cases found with
      | file contents => simpa only [hfound] using hnone
      | special kind =>
          cases kind with
          | device => simpa only [hfound] using hnone
          | link leads =>
              simp only [hfound] at hnone
              rcases removeFile_cases fault disk path with hsame | herase
              · rwa [hsame] at hnone
              · rw [herase] at hnone
                exact lookup_eq_none_of_erase habove hne hfound hnone
      | dir entries =>
          simp only [hfound] at hnone
          have hpath : path ≠ [] := fun heq => hne (List.prefix_nil.mp (heq ▸ habove) ▸ heq.symm)
          cases hleft : removeTree fault path (.dir entries) with
          | none =>
              rw [hleft] at hnone
              exact lookup_eq_none_of_erase habove hne hfound hnone
          | some left =>
              have hput : ∃ kept, (put left.1 disk.tree path).lookup above = some (.dir kept) :=
                isDir_lookup_put (passable_of_lookup hfound) habove hne
              obtain ⟨kept, hkept⟩ := hput
              rw [hleft, lookup, tree_set hpath, hkept] at hnone
              contradiction

@[simp]
theorem written_removeFile (fault : List Name → Option String) (disk : Disk Name Contents)
    (path : List Name) : (disk.removeFile fault path).1.written = disk.written := by
  rcases removeFile_cases fault disk path with hsame | herase
  · rw [hsame]
  · rw [herase, written_erase]

@[simp]
theorem written_removeDirAll (fault : List Name → Option String) (disk : Disk Name Contents)
    (path : List Name) : (disk.removeDirAll fault path).1.written = disk.written := by
  rcases removeDirAll_cases fault disk path with hsame | herase | ⟨left, hset⟩
  · rw [hsame]
  · rw [herase, written_erase]
  · rw [hset, written_set]

theorem lookup_removeDirAll_of_isDir {fault : List Name → Option String}
    (hfault : ∀ path, fault path = none) (hne : path ≠ [])
    (hkind : ∀ node, disk.lookup path = some node → node.isDir = true) :
    (disk.removeDirAll fault path).1.lookup path = none := by
  rw [removeDirAll]
  cases hfound : disk.lookup path with
  | none => exact hfound
  | some found =>
      cases found with
      | file contents => exact absurd (hkind _ hfound) (by simp [isDir])
      | special kind => exact absurd (hkind _ hfound) (by simp [isDir])
      | dir entries =>
          dsimp only
          rw [removeTree_eq_none_iff.mpr fun other _ => hfault other]
          exact lookup_erase_self disk hne

/-- Only a directory withstands the removal of a file. -/
theorem isDir_of_lookup_removeFile {fault : List Name → Option String}
    (hfault : ∀ path, fault path = none) (hne : path ≠ []) {node : FileTree Name Contents}
    (hnode : (disk.removeFile fault path).1.lookup path = some node) : node.isDir = true := by
  rw [removeFile] at hnode
  cases hfound : disk.lookup path with
  | none =>
      simp only [hfound] at hnode
      contradiction
  | some found =>
      cases found with
      | dir entries =>
          simp only [hfound] at hnode
          rw [← Option.some.inj hnode]
          rfl
      | file contents =>
          simp only [hfound, hfault, lookup_erase_self disk hne] at hnode
          contradiction
      | special kind =>
          simp only [hfound, hfault, lookup_erase_self disk hne] at hnode
          contradiction

/-- Nothing is left where no removal fails. -/
theorem lookup_removeDirAll_removeFile {fault : List Name → Option String}
    (hfault : ∀ path, fault path = none) (disk : Disk Name Contents) (hne : path ≠ []) :
    ((disk.removeFile fault path).1.removeDirAll fault path).1.lookup path = none :=
  lookup_removeDirAll_of_isDir hfault hne fun _ hnode =>
    isDir_of_lookup_removeFile hfault hne hnode

/-! ## Renaming -/

variable {fault : Option String} {parent : List Name} {source dest : Name}

theorem mem_written_rename {made : List Name}
    (hmade : made ∈ (disk.rename fault parent source dest).1.written) :
    made ∈ disk.written ∨ made = parent ++ [dest] := by
  rw [rename.eq_def] at hmade
  cases fault with
  | some fault => exact .inl hmade
  | none =>
      cases hsource : disk.lookup (parent ++ [source]) with
      | none =>
          rw [hsource] at hmade
          exact .inl hmade
      | some node =>
          simp only [hsource] at hmade
          cases hreplaces : replaces node (disk.lookup (parent ++ [dest])) with
          | error reason =>
              rw [hreplaces] at hmade
              exact .inl hmade
          | ok allowed => simpa [hreplaces] using hmade

/-- A name that is free is taken. -/
theorem rename_onto_nothing
    (hsource : disk.lookup (parent ++ [source]) = some node)
    (hdest : disk.lookup (parent ++ [dest]) = none) :
    (disk.rename none parent source dest).2 = .ok () ∧
      (disk.rename none parent source dest).1.lookup (parent ++ [dest]) = some node := by
  have hparent : parent <+: parent ++ [source] := List.prefix_append _ _
  have hproper : parent ≠ parent ++ [source] := by simp
  obtain ⟨entries, hentries⟩ := exists_dir_of_prefix hsource hparent hproper
  have hkept : ∃ left, (disk.erase (parent ++ [source])).lookup parent = some (.dir left) := by
    rw [lookup, tree_erase]
    exact isDir_lookup_erase hparent hproper hentries
  obtain ⟨left, hleft⟩ := hkept
  simp only [rename, hsource, hdest, replaces]
  exact ⟨trivial, by rw [lookup_log, lookup_set_self (by simp) (passable_child hleft dest)]⟩

end Beside

/-! ## Listing no name twice -/

section Distinct

variable {disk : Disk Name Contents} {path : List Name} {node : FileTree Name Contents}

omit [DecidableEq Name] in
theorem distinct_withTree (hdisk : disk.tree.Distinct) {tree : FileTree Name Contents}
    (htree : tree.Distinct) : (disk.withTree tree).tree.Distinct := by
  cases tree with
  | dir entries => exact htree
  | file contents => exact hdisk
  | special kind => exact hdisk

theorem distinct_set (hdisk : disk.tree.Distinct) (hnode : node.Distinct) :
    (disk.set path node).tree.Distinct :=
  distinct_withTree hdisk (hdisk.put hnode)

theorem distinct_erase (hdisk : disk.tree.Distinct) : (disk.erase path).tree.Distinct :=
  distinct_withTree hdisk hdisk.erase

theorem distinct_createDirs {fault : List Name → Option String} {here rest : List Name}
    (hdisk : disk.tree.Distinct) : (createDirs fault disk here rest).1.tree.Distinct := by
  induction rest generalizing disk here with
  | nil => exact hdisk
  | cons name rest ih =>
      rw [createDirs]
      cases hfound : disk.lookup (here ++ [name]) with
      | none =>
          cases fault (here ++ [name]) with
          | some err => exact hdisk
          | none => exact ih (distinct_set hdisk distinct_nil)
      | some found =>
          cases found with
          | dir entries => exact ih hdisk
          | file contents => exact hdisk
          | special kind => exact hdisk

theorem distinct_write {contents : Contents} {failure : Option (WriteFailure Contents)}
    (hdisk : disk.tree.Distinct) : (disk.write path contents failure).1.tree.Distinct := by
  rcases write_cases disk path contents failure with hsame | ⟨bytes, hset⟩
  · rw [hsame]
    exact hdisk
  · rw [hset]
    exact distinct_set hdisk (distinct_file bytes)

theorem distinct_removeFile {fault : List Name → Option String} (hdisk : disk.tree.Distinct) :
    (disk.removeFile fault path).1.tree.Distinct := by
  rcases removeFile_cases fault disk path with hsame | herase
  · rw [hsame]
    exact hdisk
  · rw [herase]
    exact distinct_erase hdisk

theorem distinct_removeDirAll {fault : List Name → Option String} (hdisk : disk.tree.Distinct) :
    (disk.removeDirAll fault path).1.tree.Distinct := by
  rw [removeDirAll]
  cases hfound : disk.lookup path with
  | none => exact hdisk
  | some found =>
      cases found with
      | file contents => exact hdisk
      | special kind =>
          cases kind with
          | device => exact hdisk
          | link leads => exact distinct_removeFile hdisk
      | dir entries =>
          dsimp only
          cases hleft : removeTree fault path (.dir entries) with
          | none => exact distinct_erase hdisk
          | some left =>
              have hkept := Distinct.of_removeTree path _ (hdisk.of_lookup hfound) hleft
              exact distinct_set hdisk hkept

end Distinct

end Disk

end RadicleArtifact.Library
