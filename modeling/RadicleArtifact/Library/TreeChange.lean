import RadicleArtifact.Library.FileTree
import RadicleArtifact.Library.IndexMap

/-!
# Changing trees of files

A tree is removed entry by entry, and what is left when a removal fails is the tree without
the entries removed before.  `put` sets what stands at a path, through directories that it
makes where nothing stands, and `erase` takes it away.
-/

namespace RadicleArtifact.Library

namespace FileTree

variable {Name Contents : Type}

def isDir : FileTree Name Contents → Bool
  | dir _ => true
  | _ => false

theorem isDir_iff {tree : FileTree Name Contents} :
    tree.isDir = true ↔ ∃ entries, tree = dir entries := by
  cases tree <;> simp [isDir]

/-! ## Removing a tree -/

mutual

/-- Remove a tree entry by entry, directories last.  A removal that fails stops the others;
what is left then, and the failure. -/
def removeTree (fault : List Name → Option String) (here : List Name) :
    FileTree Name Contents → Option (FileTree Name Contents × String)
  | dir entries =>
      match removeEntries fault here entries with
      | some (left, err) => some (dir left, err)
      | none => (fault here).map fun err => (dir [], err)
  | file contents => (fault here).map fun err => (file contents, err)
  | special kind => (fault here).map fun err => (special kind, err)

def removeEntries (fault : List Name → Option String) (here : List Name) :
    List (Name × FileTree Name Contents) →
      Option (List (Name × FileTree Name Contents) × String)
  | [] => none
  | (name, tree) :: entries =>
      match removeTree fault (here ++ [name]) tree with
      | some (left, err) => some ((name, left) :: entries, err)
      | none => removeEntries fault here entries

end

mutual

/-- The single removals of a tree, in order. -/
def removals (here : List Name) : FileTree Name Contents → List (List Name)
  | dir entries => removalsIn here entries ++ [here]
  | file _ => [here]
  | special _ => [here]

def removalsIn (here : List Name) : List (Name × FileTree Name Contents) → List (List Name)
  | [] => []
  | (name, tree) :: entries => removals (here ++ [name]) tree ++ removalsIn here entries

end

theorem removals_ne_nil (here : List Name) (tree : FileTree Name Contents) :
    removals here tree ≠ [] := by
  cases tree <;> simp [removals]

section Remove

variable {fault : List Name → Option String} {here : List Name}

theorem removalsIn_ne_nil {entries left : List (Name × FileTree Name Contents)} {err : String}
    (hleft : removeEntries fault here entries = some (left, err)) : removalsIn here left ≠ [] := by
  induction entries with
  | nil => simp [removeEntries] at hleft
  | cons entry entries ih =>
      obtain ⟨name, tree⟩ := entry
      rw [removeEntries] at hleft
      cases htree : removeTree fault (here ++ [name]) tree with
      | none =>
          rw [htree] at hleft
          exact ih hleft
      | some stopped =>
          rw [htree] at hleft
          obtain ⟨rfl, -⟩ := Prod.mk.inj (Option.some.inj hleft)
          rw [removalsIn]
          exact List.append_ne_nil_of_left_ne_nil (removals_ne_nil _ _) _

variable (fault)

mutual

/-- What is left of a tree is what could not be removed. -/
theorem removals_removeTree : (here : List Name) → (tree : FileTree Name Contents) →
    ((removeTree fault here tree).elim [] fun left => removals here left.1) =
      (removals here tree).dropWhile fun path => (fault path).isNone
  | here, .dir entries => by
      have hentries := removals_removeEntries here entries
      rw [removeTree, removals, List.dropWhile_append, ← hentries]
      cases hleft : removeEntries fault here entries with
      | some left =>
          have hne := List.isEmpty_eq_false_iff.mpr (removalsIn_ne_nil hleft)
          simp [hne, removals]
      | none => cases hfault : fault here <;> simp [hfault, removals, removalsIn]
  | here, .file contents => by
      rw [removeTree, removals]
      cases hfault : fault here <;> simp [hfault, removals]
  | here, .special _ => by
      rw [removeTree, removals]
      cases hfault : fault here <;> simp [hfault, removals]

theorem removals_removeEntries : (here : List Name) →
    (entries : List (Name × FileTree Name Contents)) →
      ((removeEntries fault here entries).elim [] fun left => removalsIn here left.1) =
        (removalsIn here entries).dropWhile fun path => (fault path).isNone
  | here, [] => by simp [removeEntries, removalsIn]
  | here, (name, tree) :: entries => by
      have htree := removals_removeTree (here ++ [name]) tree
      rw [removeEntries, removalsIn, List.dropWhile_append, ← htree]
      cases hleft : removeTree fault (here ++ [name]) tree with
      | some left =>
          have hne := List.isEmpty_eq_false_iff.mpr (removals_ne_nil (here ++ [name]) left.1)
          simp [hne, removalsIn]
      | none => exact removals_removeEntries here entries

end

variable {fault} {tree left : FileTree Name Contents} {err : String}

/-- A tree is gone exactly if no removal failed. -/
theorem removeTree_eq_none_iff :
    removeTree fault here tree = none ↔ ∀ path ∈ removals here tree, fault path = none := by
  have hremovals := removals_removeTree fault here tree
  constructor
  · intro hnone
    rw [hnone, Option.elim_none, eq_comm, List.dropWhile_eq_nil_iff] at hremovals
    simpa using hremovals
  · intro hfault
    have hnil : ((removals here tree).dropWhile fun path => (fault path).isNone) = [] :=
      List.dropWhile_eq_nil_iff.mpr (by simpa using hfault)
    rw [hnil] at hremovals
    cases hleft : removeTree fault here tree with
    | none => rfl
    | some stopped =>
        rw [hleft] at hremovals
        exact absurd hremovals (removals_ne_nil here stopped.1)

end Remove

/-! ## Setting and erasing entries -/

variable [DecidableEq Name]

def setEntry (name : Name) (tree : FileTree Name Contents) :
    List (Name × FileTree Name Contents) → List (Name × FileTree Name Contents)
  | [] => [(name, tree)]
  | (other, found) :: entries =>
      if other = name then (name, tree) :: entries
      else (other, found) :: setEntry name tree entries

def eraseEntry (name : Name) (entries : List (Name × FileTree Name Contents)) :
    List (Name × FileTree Name Contents) :=
  entries.filter fun entry => entry.1 ≠ name

theorem lookup_setEntry (name : Name) (tree : FileTree Name Contents)
    (entries : List (Name × FileTree Name Contents)) (wanted : Name) :
    (setEntry name tree entries).lookup wanted =
      if wanted = name then some tree else entries.lookup wanted := by
  induction entries with
  | nil => rw [setEntry, IndexMap.lookup_cons_eq_ite]
  | cons entry entries ih =>
      obtain ⟨other, found⟩ := entry
      rw [setEntry, IndexMap.lookup_cons_eq_ite]
      by_cases hother : other = name
      · subst hother
        rw [if_pos rfl, IndexMap.lookup_cons_eq_ite]
        by_cases hwanted : wanted = other <;> simp [hwanted]
      · rw [if_neg hother, IndexMap.lookup_cons_eq_ite, ih]
        by_cases hwanted : wanted = other
        · simp [hwanted, hother]
        · simp [hwanted]

theorem lookup_eraseEntry (name : Name) (entries : List (Name × FileTree Name Contents))
    (wanted : Name) :
    (eraseEntry name entries).lookup wanted =
      if wanted = name then none else entries.lookup wanted := by
  induction entries with
  | nil => simp [eraseEntry]
  | cons entry entries ih =>
      obtain ⟨other, found⟩ := entry
      rw [eraseEntry] at ih ⊢
      rw [IndexMap.lookup_cons_eq_ite]
      by_cases hother : other = name
      · rw [List.filter_cons_of_neg (by simpa using hother), ih]
        by_cases hwanted : wanted = name
        · simp [hwanted]
        · simp [hwanted, hother]
      · rw [List.filter_cons_of_pos (by simpa using hother), IndexMap.lookup_cons_eq_ite, ih]
        by_cases hwanted : wanted = other
        · simp [hwanted, hother]
        · simp [hwanted]

/-- Set what stands at a path, below directories that are made where nothing stands. -/
def put (node : FileTree Name Contents) : FileTree Name Contents → List Name →
    FileTree Name Contents
  | _, [] => node
  | dir entries, name :: path =>
      dir (setEntry name (put node ((entries.lookup name).getD (dir [])) path) entries)
  | tree, _ :: _ => tree

/-- Take away what stands at a path. -/
def erase : FileTree Name Contents → List Name → FileTree Name Contents
  | dir entries, [name] => dir (eraseEntry name entries)
  | dir entries, name :: next :: path =>
      match entries.lookup name with
      | some found => dir (setEntry name (erase found (next :: path)) entries)
      | none => dir entries
  | tree, _ => tree

section Lookup

variable {node tree : FileTree Name Contents} {path other : List Name}

/-- Directories or nothing stand above the path. -/
def Passable (tree : FileTree Name Contents) (path : List Name) : Prop :=
  ∀ above, above <+: path → above ≠ path → ∀ found, tree.lookup above = some found →
    found.isDir = true

theorem Passable.tail {entries : List (Name × FileTree Name Contents)} {name : Name}
    (hpassable : Passable (dir entries) (name :: path)) :
    Passable ((entries.lookup name).getD (dir [])) path := by
  intro above habove hne found hfound
  cases hentry : entries.lookup name with
  | none =>
      rw [hentry, Option.getD_none] at hfound
      cases above with
      | nil =>
          rw [lookup_nil] at hfound
          rw [← Option.some.inj hfound]
          rfl
      | cons next above => contradiction
  | some inner =>
      refine hpassable (name :: above) (List.cons_prefix_cons.mpr ⟨rfl, habove⟩)
        (fun heq => hne (List.cons.inj heq).2) found ?_
      rw [hentry, Option.getD_some] at hfound
      rw [lookup_dir_cons, hentry, Option.bind_some, hfound]

theorem Passable.exists_entries {name : Name} (hpassable : Passable tree (name :: path)) :
    ∃ entries, tree = dir entries :=
  isDir_iff.mp (hpassable [] List.nil_prefix (by simp) tree (lookup_nil tree))

theorem lookup_put_append (hpassable : Passable tree path) (rest : List Name) :
    (put node tree path).lookup (path ++ rest) = node.lookup rest := by
  induction path generalizing tree with
  | nil => rw [put, List.nil_append]
  | cons name path ih =>
      obtain ⟨entries, rfl⟩ := hpassable.exists_entries
      rw [put, List.cons_append, lookup_dir_cons, lookup_setEntry, if_pos rfl, Option.bind_some,
        ih hpassable.tail]

theorem lookup_put_self (hpassable : Passable tree path) :
    (put node tree path).lookup path = some node := by
  have hput : (put node tree path).lookup (path ++ []) = node.lookup [] :=
    lookup_put_append hpassable []
  rwa [List.append_nil, lookup_nil] at hput

/-- What stands beside the path stays. -/
theorem lookup_put_of_not_prefix (hpath : ¬ path <+: other) (hother : ¬ other <+: path) :
    (put node tree path).lookup other = tree.lookup other := by
  induction path generalizing tree other with
  | nil => exact absurd List.nil_prefix hpath
  | cons name path ih =>
      cases other with
      | nil => exact absurd List.nil_prefix hother
      | cons wanted other =>
          cases tree with
          | file contents => rfl
          | special kind => rfl
          | dir entries =>
              rw [put, lookup_dir_cons, lookup_dir_cons, lookup_setEntry]
              by_cases hname : wanted = name
              · subst hname
                rw [List.cons_prefix_cons, not_and] at hpath hother
                rw [if_pos rfl, Option.bind_some, ih (hpath rfl) (hother rfl)]
                cases entries.lookup wanted with
                | some inner => rfl
                | none =>
                    cases other with
                    | nil => exact absurd List.nil_prefix (hother rfl)
                    | cons next other => rfl
              · rw [if_neg hname]

/-- Above the path stand directories. -/
theorem isDir_lookup_put (hpassable : Passable tree path) (hother : other <+: path)
    (hne : other ≠ path) :
    ∃ entries, (put node tree path).lookup other = some (dir entries) := by
  induction path generalizing tree other with
  | nil => exact absurd (List.prefix_nil.mp hother) hne
  | cons name path ih =>
      obtain ⟨entries, rfl⟩ := hpassable.exists_entries
      cases other with
      | nil => exact ⟨_, lookup_nil _⟩
      | cons wanted other =>
          obtain ⟨rfl, hbelow⟩ := List.cons_prefix_cons.mp hother
          rw [put, lookup_dir_cons, lookup_setEntry, if_pos rfl, Option.bind_some]
          exact ih hpassable.tail hbelow fun heq => hne (by rw [heq])

theorem lookup_erase_append (hne : path ≠ []) (rest : List Name) :
    (erase tree path).lookup (path ++ rest) = none := by
  induction path generalizing tree with
  | nil => contradiction
  | cons name path ih =>
      cases tree with
      | file contents => cases path <;> rfl
      | special kind => cases path <;> rfl
      | dir entries =>
          cases path with
          | nil =>
              rw [erase, List.singleton_append, lookup_dir_cons, lookup_eraseEntry, if_pos rfl]
              rfl
          | cons next path =>
              rw [erase]
              cases hentry : entries.lookup name with
              | none => simp [hentry]
              | some found =>
                  simp only [List.cons_append, lookup_dir_cons, lookup_setEntry, if_true,
                    Option.bind_some]
                  exact ih (by simp)

theorem lookup_erase_self (tree : FileTree Name Contents) (hne : path ≠ []) :
    (erase tree path).lookup path = none := by
  have hgone : (erase tree path).lookup (path ++ []) = none := lookup_erase_append hne []
  rwa [List.append_nil] at hgone

/-- Directories above what is taken away stay. -/
theorem isDir_lookup_erase {entries : List (Name × FileTree Name Contents)}
    (hother : other <+: path) (hne : other ≠ path)
    (hentries : tree.lookup other = some (dir entries)) :
    ∃ left, (erase tree path).lookup other = some (dir left) := by
  induction path generalizing tree other with
  | nil => exact absurd (List.prefix_nil.mp hother) hne
  | cons name path ih =>
      cases tree with
      | file contents => cases other <;> simp [lookup] at hentries
      | special kind => cases other <;> simp [lookup] at hentries
      | dir inner =>
          cases path with
          | nil =>
              cases other with
              | nil => exact ⟨_, lookup_nil _⟩
              | cons wanted other =>
                  obtain ⟨rfl, hbelow⟩ := List.cons_prefix_cons.mp hother
                  exact absurd (by rw [List.prefix_nil.mp hbelow]) hne
          | cons next path =>
              rw [erase]
              cases other with
              | nil => cases inner.lookup name <;> exact ⟨_, lookup_nil _⟩
              | cons wanted other =>
                  obtain ⟨rfl, hbelow⟩ := List.cons_prefix_cons.mp hother
                  rw [lookup_dir_cons] at hentries
                  cases hentry : inner.lookup wanted with
                  | none =>
                      rw [hentry] at hentries
                      contradiction
                  | some found =>
                      rw [hentry, Option.bind_some] at hentries
                      simp only [lookup_dir_cons, lookup_setEntry, if_true, Option.bind_some]
                      exact ih hbelow (fun heq => hne (by rw [heq])) hentries

theorem lookup_erase_of_not_prefix (hpath : ¬ path <+: other) (hother : ¬ other <+: path) :
    (erase tree path).lookup other = tree.lookup other := by
  induction path generalizing tree other with
  | nil => exact absurd List.nil_prefix hpath
  | cons name path ih =>
      cases other with
      | nil => exact absurd List.nil_prefix hother
      | cons wanted other =>
          cases tree with
          | file contents => cases path <;> rfl
          | special kind => cases path <;> rfl
          | dir entries =>
              cases path with
              | nil =>
                  have hname : wanted ≠ name := fun heq => hpath ⟨other, by rw [heq]; rfl⟩
                  rw [erase, lookup_dir_cons, lookup_eraseEntry, if_neg hname, lookup_dir_cons]
              | cons next path =>
                  rw [erase]
                  cases hentry : entries.lookup name with
                  | none => rfl
                  | some found =>
                      simp only [lookup_dir_cons, lookup_setEntry]
                      by_cases hname : wanted = name
                      · subst hname
                        rw [List.cons_prefix_cons, not_and] at hpath hother
                        rw [if_pos rfl, hentry, Option.bind_some, Option.bind_some,
                          ih (hpath rfl) (hother rfl)]
                      · rw [if_neg hname]

end Lookup

/-! ## Listing no name twice -/

section Distinct

variable {node tree found : FileTree Name Contents} {name : Name} {path : List Name}
  {entries : List (Name × FileTree Name Contents)} {fault : List Name → Option String}

omit [DecidableEq Name] in
theorem distinct_nil : (dir [] : FileTree Name Contents).Distinct := by
  simp [distinct_dir_iff]

omit [DecidableEq Name] in
theorem distinct_cons_iff :
    (dir ((name, tree) :: entries)).Distinct ↔
      name ∉ entries.map Prod.fst ∧ tree.Distinct ∧ (dir entries).Distinct := by
  simp only [distinct_dir_iff, List.map_cons, List.nodup_cons, List.forall_mem_cons]
  tauto

theorem Distinct.of_lookup_entries (hentries : (dir entries).Distinct)
    (hfound : entries.lookup name = some found) : found.Distinct := by
  obtain ⟨hnodup, hall⟩ := distinct_dir_iff.mp hentries
  exact hall _ ((lookup_entries_eq_some_iff hnodup).mp hfound)

theorem Distinct.of_lookup (htree : tree.Distinct) (hfound : tree.lookup path = some found) :
    found.Distinct := by
  induction path generalizing tree with
  | nil =>
      rw [lookup_nil] at hfound
      exact Option.some.inj hfound ▸ htree
  | cons wanted path ih =>
      cases tree with
      | file contents => contradiction
      | special kind => contradiction
      | dir entries =>
          rw [lookup_dir_cons, Option.bind_eq_some_iff] at hfound
          obtain ⟨inner, hinner, hbelow⟩ := hfound
          exact ih (htree.of_lookup_entries hinner) hbelow

theorem mem_keys_setEntry {other : Name}
    (hother : other ∈ (setEntry name tree entries).map Prod.fst) :
    other = name ∨ other ∈ entries.map Prod.fst := by
  induction entries with
  | nil => simpa [setEntry] using hother
  | cons entry entries ih =>
      obtain ⟨first, inner⟩ := entry
      rw [setEntry] at hother
      split at hother
      · rw [List.map_cons, List.mem_cons] at hother ⊢
        exact hother.imp_right .inr
      · rw [List.map_cons, List.mem_cons] at hother ⊢
        rcases hother with hfirst | hrest
        · exact .inr (.inl hfirst)
        · exact (ih hrest).imp_right .inr

theorem Distinct.setEntry (hentries : (dir entries).Distinct) (htree : tree.Distinct) :
    (dir (setEntry name tree entries)).Distinct := by
  induction entries with
  | nil =>
      rw [FileTree.setEntry, distinct_cons_iff]
      exact ⟨List.not_mem_nil, htree, distinct_nil⟩
  | cons entry entries ih =>
      obtain ⟨other, inner⟩ := entry
      obtain ⟨hother, hinner, hrest⟩ := distinct_cons_iff.mp hentries
      rw [FileTree.setEntry]
      by_cases hname : other = name
      · rw [if_pos hname, distinct_cons_iff]
        exact ⟨hname ▸ hother, htree, hrest⟩
      · rw [if_neg hname, distinct_cons_iff]
        refine ⟨fun hmem => ?_, hinner, ih hrest⟩
        rcases mem_keys_setEntry hmem with heq | hold
        · exact hname heq
        · exact hother hold

theorem Distinct.eraseEntry (hentries : (dir entries).Distinct) :
    (dir (eraseEntry name entries)).Distinct := by
  obtain ⟨hnodup, hall⟩ := distinct_dir_iff.mp hentries
  have hkept : (FileTree.eraseEntry name entries).Sublist entries := List.filter_sublist
  exact distinct_dir_iff.mpr
    ⟨hnodup.sublist (hkept.map Prod.fst), fun entry hentry => hall entry (hkept.subset hentry)⟩

/-- Setting a tree in which no directory lists a name twice. -/
theorem Distinct.put (htree : tree.Distinct) (hnode : node.Distinct) :
    (put node tree path).Distinct := by
  induction path generalizing tree with
  | nil => exact hnode
  | cons name path ih =>
      cases tree with
      | file contents => exact htree
      | special kind => exact htree
      | dir entries =>
          rw [FileTree.put]
          refine htree.setEntry (ih ?_)
          cases hfound : entries.lookup name with
          | none => exact distinct_nil
          | some inner => exact htree.of_lookup_entries hfound

theorem Distinct.erase (htree : tree.Distinct) : (tree.erase path).Distinct := by
  induction path generalizing tree with
  | nil => cases tree <;> exact htree
  | cons name path ih =>
      cases tree with
      | file contents => cases path <;> exact htree
      | special kind => cases path <;> exact htree
      | dir entries =>
          cases path with
          | nil => exact htree.eraseEntry
          | cons next path =>
              rw [FileTree.erase]
              cases hfound : entries.lookup name with
              | none => exact htree
              | some inner => exact htree.setEntry (ih (htree.of_lookup_entries hfound))

omit [DecidableEq Name] in
mutual

/-- What is left of a tree after some removals. -/
theorem Distinct.of_removeTree : (here : List Name) → (tree : FileTree Name Contents) →
    tree.Distinct → ∀ {left err}, removeTree fault here tree = some (left, err) → left.Distinct
  | here, .dir entries, htree, left, err, hleft => by
      rw [removeTree] at hleft
      cases hentries : removeEntries fault here entries with
      | none =>
          rw [hentries, Option.map_eq_some_iff] at hleft
          obtain ⟨_, -, hpair⟩ := hleft
          exact (Prod.mk.inj hpair).1 ▸ distinct_nil
      | some stopped =>
          rw [hentries] at hleft
          obtain ⟨rfl, -⟩ := Prod.mk.inj (Option.some.inj hleft)
          exact (distinct_of_removeEntries here entries htree hentries).1
  | here, .file contents, htree, left, err, hleft => by
      rw [removeTree, Option.map_eq_some_iff] at hleft
      obtain ⟨_, -, hpair⟩ := hleft
      exact (Prod.mk.inj hpair).1 ▸ htree
  | here, .special _, htree, left, err, hleft => by
      rw [removeTree, Option.map_eq_some_iff] at hleft
      obtain ⟨_, -, hpair⟩ := hleft
      exact (Prod.mk.inj hpair).1 ▸ htree

theorem distinct_of_removeEntries : (here : List Name) →
    (entries : List (Name × FileTree Name Contents)) → (dir entries).Distinct →
      ∀ {left err}, removeEntries fault here entries = some (left, err) →
        (dir left).Distinct ∧ (left.map Prod.fst).Sublist (entries.map Prod.fst)
  | here, [], _, left, err, hleft => by
      rw [removeEntries] at hleft
      contradiction
  | here, (name, tree) :: entries, hentries, left, err, hleft => by
      obtain ⟨hname, htree, hrest⟩ := distinct_cons_iff.mp hentries
      rw [removeEntries] at hleft
      cases hstopped : removeTree fault (here ++ [name]) tree with
      | none =>
          rw [hstopped] at hleft
          have hlater := distinct_of_removeEntries here entries hrest hleft
          exact ⟨hlater.1, hlater.2.cons _⟩
      | some stopped =>
          rw [hstopped] at hleft
          obtain ⟨rfl, -⟩ := Prod.mk.inj (Option.some.inj hleft)
          have hkept := Distinct.of_removeTree (here ++ [name]) tree htree hstopped
          exact ⟨distinct_cons_iff.mpr ⟨hname, hkept, hrest⟩, .refl _⟩

end

end Distinct

end FileTree

end RadicleArtifact.Library
