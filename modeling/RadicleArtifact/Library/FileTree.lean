import Mathlib

/-!
# Trees of files

A directory lists its entries in some order.  `files` walks a tree in that order and
gives every regular file with its path; `lookup` follows a path.  A reordered tree lists
the same entries in another order, at any depth.
-/

namespace RadicleArtifact.Library

variable {Name Contents : Type}

/-- What an entry is that is neither a regular file nor a directory. -/
inductive SpecialKind where
  /-- A symbolic link, and whether anything stands where it leads: outside the tree, no
  directory, and not to be written. -/
  | link (leads : Bool)
  /-- A socket, a pipe or a device. -/
  | device
  deriving DecidableEq

inductive FileTree (Name Contents : Type) where
  | file (contents : Contents)
  | dir (entries : List (Name × FileTree Name Contents))
  | special (kind : SpecialKind)

namespace FileTree

/-! ## Walking -/

mutual

/-- The regular files of a tree, depth first. -/
def files : FileTree Name Contents → List (List Name × Contents)
  | file contents => [([], contents)]
  | dir entries => filesIn entries
  | special _ => []

def filesIn : List (Name × FileTree Name Contents) → List (List Name × Contents)
  | [] => []
  | (name, tree) :: entries =>
      (files tree).map (fun file => (name :: file.1, file.2)) ++ filesIn entries

end

@[simp]
theorem files_file (contents : Contents) :
    (file contents : FileTree Name Contents).files = [([], contents)] := by
  rw [files]

@[simp]
theorem files_dir (entries : List (Name × FileTree Name Contents)) :
    (dir entries).files = filesIn entries := by
  rw [files]

@[simp]
theorem files_special (kind : SpecialKind) :
    (special kind : FileTree Name Contents).files = [] := by
  rw [files]

@[simp]
theorem filesIn_nil : filesIn ([] : List (Name × FileTree Name Contents)) = [] := by
  rw [filesIn]

theorem filesIn_cons (name : Name) (tree : FileTree Name Contents)
    (entries : List (Name × FileTree Name Contents)) :
    filesIn ((name, tree) :: entries) =
      tree.files.map (fun file => (name :: file.1, file.2)) ++ filesIn entries := by
  rw [filesIn]

theorem mem_filesIn_iff {entries : List (Name × FileTree Name Contents)} {path : List Name}
    {contents : Contents} :
    (path, contents) ∈ filesIn entries ↔
      ∃ entry ∈ entries, ∃ rest, path = entry.1 :: rest ∧ (rest, contents) ∈ entry.2.files := by
  induction entries with
  | nil => simp
  | cons entry entries ih =>
      obtain ⟨name, tree⟩ := entry
      rw [filesIn_cons, List.mem_append, ih, List.exists_mem_cons_iff]
      refine or_congr ?_ Iff.rfl
      simp only [List.mem_map, Prod.mk.injEq, Prod.exists]
      constructor
      · rintro ⟨rest, _, hfile, rfl, rfl⟩
        exact ⟨rest, rfl, hfile⟩
      · rintro ⟨rest, rfl, hfile⟩
        exact ⟨rest, contents, hfile, rfl, rfl⟩

/-! ## Reordering -/

mutual

/-- The same tree with its directories listed in another order. -/
inductive Reordered : FileTree Name Contents → FileTree Name Contents → Prop
  | file (contents : Contents) : Reordered (file contents) (file contents)
  | dir {entries later : List (Name × FileTree Name Contents)}
      (hentries : ReorderedEntries entries later) : Reordered (dir entries) (dir later)
  | special (kind : SpecialKind) : Reordered (special kind) (special kind)

inductive ReorderedEntries : List (Name × FileTree Name Contents) →
    List (Name × FileTree Name Contents) → Prop
  | nil : ReorderedEntries [] []
  | cons {name : Name} {tree after : FileTree Name Contents}
      {entries later : List (Name × FileTree Name Contents)} (htree : Reordered tree after)
      (hentries : ReorderedEntries entries later) :
      ReorderedEntries ((name, tree) :: entries) ((name, after) :: later)
  | swap (first second : Name × FileTree Name Contents)
      {entries later : List (Name × FileTree Name Contents)}
      (hentries : ReorderedEntries entries later) :
      ReorderedEntries (first :: second :: entries) (second :: first :: later)
  | trans {entries middle later : List (Name × FileTree Name Contents)}
      (hfirst : ReorderedEntries entries middle) (hsecond : ReorderedEntries middle later) :
      ReorderedEntries entries later

end

mutual

theorem Reordered.refl : (tree : FileTree Name Contents) → Reordered tree tree
  | .file contents => .file contents
  | .dir entries => .dir (ReorderedEntries.refl entries)
  | .special kind => .special kind

theorem ReorderedEntries.refl :
    (entries : List (Name × FileTree Name Contents)) → ReorderedEntries entries entries
  | [] => .nil
  | (_, tree) :: entries => .cons (Reordered.refl tree) (ReorderedEntries.refl entries)

end

mutual

/-- Reordering a tree only reorders the walk. -/
theorem Reordered.perm_files {tree later : FileTree Name Contents} :
    Reordered tree later → tree.files.Perm later.files
  | .file _ => .refl _
  | .dir hentries => by
      rw [files_dir, files_dir]
      exact hentries.perm_filesIn
  | .special _ => .refl _

theorem ReorderedEntries.perm_filesIn
    {entries later : List (Name × FileTree Name Contents)} :
    ReorderedEntries entries later → (filesIn entries).Perm (filesIn later)
  | .nil => .refl _
  | .cons htree hentries => by
      rw [filesIn_cons, filesIn_cons]
      exact (htree.perm_files.map _).append hentries.perm_filesIn
  | .swap first second hentries => by
      obtain ⟨name, tree⟩ := first
      obtain ⟨other, later⟩ := second
      rw [filesIn_cons, filesIn_cons, filesIn_cons, filesIn_cons, ← List.append_assoc,
        ← List.append_assoc]
      exact List.perm_append_comm.append hentries.perm_filesIn
  | .trans hfirst hsecond => hfirst.perm_filesIn.trans hsecond.perm_filesIn

end

mutual

/-- A file comes first in the walk when its directories are listed first. -/
theorem exists_reordered_first : (tree : FileTree Name Contents) →
    {found : List Name × Contents} → found ∈ tree.files →
      ∃ later rest, Reordered tree later ∧ later.files = found :: rest
  | .file contents, found, hfound => by
      rw [files_file, List.mem_singleton] at hfound
      exact ⟨.file contents, [], .file contents, by rw [files_file, hfound]⟩
  | .dir entries, found, hfound => by
      rw [files_dir] at hfound
      obtain ⟨first, later, rest, hentries, hfirst⟩ := exists_reorderedEntries_first entries hfound
      refine ⟨.dir (first :: later), rest ++ filesIn later, .dir hentries, ?_⟩
      rw [files_dir, filesIn_cons, hfirst, List.cons_append]
  | .special _, found, hfound => by
      rw [files_special] at hfound
      exact absurd hfound List.not_mem_nil

theorem exists_reorderedEntries_first :
    (entries : List (Name × FileTree Name Contents)) →
      {found : List Name × Contents} → found ∈ filesIn entries →
        ∃ first later rest, ReorderedEntries entries (first :: later) ∧
          first.2.files.map (fun file => (first.1 :: file.1, file.2)) = found :: rest
  | [], found, hfound => by
      rw [filesIn_nil] at hfound
      exact absurd hfound List.not_mem_nil
  | (name, tree) :: entries, found, hfound => by
      rw [filesIn_cons, List.mem_append] at hfound
      rcases hfound with hmine | hothers
      · obtain ⟨file, hfile, rfl⟩ := List.mem_map.mp hmine
        obtain ⟨later, rest, htree, hlater⟩ := exists_reordered_first tree hfile
        exact ⟨(name, later), entries, _, .cons htree (.refl entries),
          by rw [hlater, List.map_cons]⟩
      · obtain ⟨first, later, rest, hentries, hfirst⟩ :=
          exists_reorderedEntries_first entries hothers
        have hahead : ReorderedEntries ((name, tree) :: entries)
            (first :: (name, tree) :: later) :=
          .trans (.cons (.refl tree) hentries) (.swap (name, tree) first (.refl later))
        exact ⟨first, (name, tree) :: later, rest, hahead, hfirst⟩

end

/-! ## Looking up -/

mutual

/-- No directory lists a name twice. -/
def Distinct : FileTree Name Contents → Prop
  | file _ => True
  | dir entries => (entries.map Prod.fst).Nodup ∧ DistinctIn entries
  | special _ => True

def DistinctIn : List (Name × FileTree Name Contents) → Prop
  | [] => True
  | (_, tree) :: entries => Distinct tree ∧ DistinctIn entries

end

@[simp]
theorem distinct_file (contents : Contents) :
    (file contents : FileTree Name Contents).Distinct := by
  rw [Distinct]
  trivial

theorem distinctIn_iff {entries : List (Name × FileTree Name Contents)} :
    DistinctIn entries ↔ ∀ entry ∈ entries, entry.2.Distinct := by
  induction entries with
  | nil => simp [DistinctIn]
  | cons entry entries ih =>
      obtain ⟨name, tree⟩ := entry
      simp [DistinctIn, ih]

theorem distinct_dir_iff {entries : List (Name × FileTree Name Contents)} :
    (dir entries).Distinct ↔
      (entries.map Prod.fst).Nodup ∧ ∀ entry ∈ entries, entry.2.Distinct := by
  rw [Distinct, distinctIn_iff]

mutual

/-- A walk comes by every path once. -/
theorem nodup_paths : (tree : FileTree Name Contents) → tree.Distinct →
    (tree.files.map Prod.fst).Nodup
  | .file contents, _ => by simp
  | .special _, _ => by simp
  | .dir entries, hdistinct => by
      obtain ⟨hnodup, hentries⟩ := distinct_dir_iff.mp hdistinct
      rw [files_dir]
      exact nodup_pathsIn entries hnodup hentries

theorem nodup_pathsIn : (entries : List (Name × FileTree Name Contents)) →
    (entries.map Prod.fst).Nodup → (∀ entry ∈ entries, entry.2.Distinct) →
      ((filesIn entries).map Prod.fst).Nodup
  | [], _, _ => by simp
  | (name, tree) :: entries, hnodup, hentries => by
      obtain ⟨hname, hnames⟩ := List.nodup_cons.mp hnodup
      obtain ⟨htree, hrest⟩ := List.forall_mem_cons.mp hentries
      rw [filesIn_cons, List.map_append, List.map_map, List.nodup_append']
      refine ⟨?_, nodup_pathsIn entries hnames hrest, ?_⟩
      · have hpaths := (nodup_paths tree htree).map (List.cons_injective (a := name))
        rwa [List.map_map] at hpaths
      · intro path hmine hothers
        obtain ⟨file, -, rfl⟩ := List.mem_map.mp hmine
        obtain ⟨other, hother, hpath⟩ := List.mem_map.mp hothers
        obtain ⟨entry, hentry, rest, hrest, -⟩ := mem_filesIn_iff.mp hother
        rw [hrest] at hpath
        obtain ⟨heq, -⟩ := List.cons.inj hpath
        exact hname (List.mem_map.mpr ⟨entry, hentry, heq⟩)

end

variable [DecidableEq Name]

/-- What stands at a path. -/
def lookup : FileTree Name Contents → List Name → Option (FileTree Name Contents)
  | tree, [] => some tree
  | dir entries, name :: path => (entries.lookup name).bind fun tree => tree.lookup path
  | _, _ :: _ => none

@[simp]
theorem lookup_nil (tree : FileTree Name Contents) : tree.lookup [] = some tree := by
  cases tree <;> rfl

@[simp]
theorem lookup_dir_cons (entries : List (Name × FileTree Name Contents)) (name : Name)
    (path : List Name) :
    (dir entries).lookup (name :: path) =
      (entries.lookup name).bind fun tree => tree.lookup path := rfl

theorem lookup_append (tree : FileTree Name Contents) (path later : List Name) :
    tree.lookup (path ++ later) = (tree.lookup path).bind fun found => found.lookup later := by
  induction path generalizing tree with
  | nil => simp
  | cons name path ih =>
      cases tree with
      | dir entries =>
          rw [List.cons_append, lookup_dir_cons, lookup_dir_cons, Option.bind_assoc]
          congr 1
          funext found
          exact ih found
      | file contents => rfl
      | special kind => rfl

theorem lookup_entries_eq_some_iff {entries : List (Name × FileTree Name Contents)}
    (hnodup : (entries.map Prod.fst).Nodup) {name : Name} {tree : FileTree Name Contents} :
    entries.lookup name = some tree ↔ (name, tree) ∈ entries := by
  induction entries with
  | nil => simp
  | cons entry entries ih =>
      obtain ⟨other, found⟩ := entry
      obtain ⟨hother, hrest⟩ := List.nodup_cons.mp hnodup
      rw [List.lookup_cons, List.mem_cons, Prod.mk.injEq]
      by_cases hname : name = other
      · subst hname
        have habsent : (name, tree) ∉ entries := fun hmem =>
          hother (List.mem_map.mpr ⟨_, hmem, rfl⟩)
        simp [habsent, eq_comm]
      · rw [beq_eq_false_iff_ne.mpr hname]
        simp [hname, ih hrest]

/-- The walk gives the files that lookups find. -/
theorem mem_files_iff {tree : FileTree Name Contents} (hdistinct : tree.Distinct)
    {path : List Name} {contents : Contents} :
    (path, contents) ∈ tree.files ↔ tree.lookup path = some (.file contents) := by
  induction path generalizing tree with
  | nil =>
      cases tree with
      | file found => simp [eq_comm]
      | dir entries => simp [mem_filesIn_iff]
      | special kind => simp
  | cons name path ih =>
      cases tree with
      | file found => simp [lookup]
      | special kind => simp [lookup]
      | dir entries =>
          obtain ⟨hnodup, hentries⟩ := distinct_dir_iff.mp hdistinct
          rw [files_dir, mem_filesIn_iff, lookup_dir_cons, Option.bind_eq_some_iff]
          constructor
          · rintro ⟨⟨other, tree⟩, hentry, rest, hpath, hfile⟩
            obtain ⟨rfl, rfl⟩ := List.cons.inj hpath
            exact ⟨tree, (lookup_entries_eq_some_iff hnodup).mpr hentry,
              (ih (hentries _ hentry)).mp hfile⟩
          · rintro ⟨tree, hlookup, hfile⟩
            have hentry := (lookup_entries_eq_some_iff hnodup).mp hlookup
            exact ⟨(name, tree), hentry, path, rfl, (ih (hentries _ hentry)).mpr hfile⟩

/-- No file stands above another. -/
theorem eq_of_prefix_of_mem_files {tree : FileTree Name Contents} (hdistinct : tree.Distinct)
    {path later : List Name} {contents other : Contents} (hfile : (path, contents) ∈ tree.files)
    (hother : (later, other) ∈ tree.files) (hinitial : path <+: later) : path = later := by
  obtain ⟨rest, rfl⟩ := hinitial
  rw [mem_files_iff hdistinct] at hfile hother
  rw [lookup_append, hfile, Option.bind_some] at hother
  cases rest with
  | nil => rw [List.append_nil]
  | cons name rest => contradiction

end FileTree

end RadicleArtifact.Library
