import RadicleArtifact.Library.BTreeMap
import RadicleArtifact.Library.History

/-!
# Insertion-ordered maps

An `IndexMap` keeps one value per key and iterates in insertion order.  Writing
an existing key keeps its place; removing a key with `shiftRemove` closes the
gap.  The structure carries the uniqueness of its keys, so two maps are equal
exactly when they iterate alike.
-/

namespace RadicleArtifact.Library

structure IndexMap (Key Value : Type*) where
  entries : List (Key × Value)
  nodup_keys : (entries.map Prod.fst).Nodup
  deriving DecidableEq

namespace IndexMap

variable {Key Value Result : Type*}

def keys (map : IndexMap Key Value) : List Key :=
  map.entries.map Prod.fst

def values (map : IndexMap Key Value) : List Value :=
  map.entries.map Prod.snd

instance : EmptyCollection (IndexMap Key Value) :=
  ⟨⟨[], List.nodup_nil⟩⟩

@[ext]
theorem ext {left right : IndexMap Key Value}
    (hentries : left.entries = right.entries) : left = right := by
  cases left
  cases right
  subst hentries
  rfl

@[simp]
theorem entries_empty : (∅ : IndexMap Key Value).entries = [] := rfl

/-- Add an entry at the end, for a key the map does not hold. -/
def push (map : IndexMap Key Value) (key : Key) (value : Value)
    (habsent : key ∉ map.keys) : IndexMap Key Value where
  entries := map.entries ++ [(key, value)]
  nodup_keys := by
    rw [List.map_append]
    refine List.Nodup.append map.nodup_keys (by simp) ?_
    simpa [keys] using habsent

@[simp]
theorem entries_push (map : IndexMap Key Value) (key : Key) (value : Value)
    (habsent : key ∉ map.keys) :
    (map.push key value habsent).entries = map.entries ++ [(key, value)] := rfl

section Lookup

variable [DecidableEq Key]

theorem lookup_cons_eq_ite (entry : Key × Value) (entries : List (Key × Value))
    (key : Key) :
    (entry :: entries).lookup key =
      if key = entry.1 then some entry.2 else entries.lookup key := by
  rw [List.lookup_cons]
  by_cases hkey : key = entry.1
  · simp [hkey]
  · rw [if_neg hkey, beq_eq_false_iff_ne.mpr hkey]

def get? (map : IndexMap Key Value) (key : Key) : Option Value :=
  map.entries.lookup key

/-- Change the value of one entry in place (`get_mut`). -/
def modify (map : IndexMap Key Value) (key : Key) (change : Value → Value) :
    IndexMap Key Value where
  entries := map.entries.map fun entry =>
    if entry.1 = key then (entry.1, change entry.2) else entry
  nodup_keys := by
    have hkeys : (map.entries.map fun entry =>
        if entry.1 = key then (entry.1, change entry.2) else entry).map Prod.fst =
          map.entries.map Prod.fst := by
      rw [List.map_map]
      refine List.map_congr_left fun entry _ => ?_
      by_cases hkey : entry.1 = key <;> simp [hkey]
    rw [hkeys]
    exact map.nodup_keys

/-- Replace the value of an existing key in place, or append a new entry. -/
def insert (map : IndexMap Key Value) (key : Key) (value : Value) :
    IndexMap Key Value :=
  if habsent : key ∉ map.keys then map.push key value habsent
  else map.modify key fun _ => value

/-- Remove an entry and keep the order of the others. -/
def shiftRemove (map : IndexMap Key Value) (key : Key) : IndexMap Key Value where
  entries := map.entries.filter fun entry => entry.1 ≠ key
  nodup_keys := (List.filter_sublist.map Prod.fst).nodup map.nodup_keys

/-- `FromIterator`: insert the pairs of an iteration one after the other. -/
def collect (entries : List (Key × Value)) : IndexMap Key Value :=
  entries.foldl (fun map entry => map.insert entry.1 entry.2) ∅

@[simp]
theorem get?_empty (key : Key) : (∅ : IndexMap Key Value).get? key = none := rfl

theorem get?_eq_some_iff_mem {map : IndexMap Key Value} {key : Key} {value : Value} :
    map.get? key = some value ↔ (key, value) ∈ map.entries := by
  rw [get?, List.lookup_eq_some_iff]
  constructor
  · rintro ⟨before, after, hentries, -⟩
    simp [hentries]
  · intro hmem
    obtain ⟨before, after, hentries⟩ := List.append_of_mem hmem
    refine ⟨before, after, hentries, fun entry hentry => ?_⟩
    have hnodup := map.nodup_keys
    rw [hentries, List.map_append, List.map_cons] at hnodup
    have hdisjoint := (List.nodup_append.mp hnodup).2.2
    simpa using (hdisjoint entry.1 (List.mem_map_of_mem hentry) key (by simp)).symm

theorem get?_eq_none_iff {map : IndexMap Key Value} {key : Key} :
    map.get? key = none ↔ key ∉ map.keys := by
  simp only [get?, List.lookup_eq_none_iff, keys, List.mem_map, not_exists, not_and]
  refine forall₂_congr fun entry _ => ?_
  rw [bne_iff_ne, ne_comm]

theorem mem_keys_iff {map : IndexMap Key Value} {key : Key} :
    key ∈ map.keys ↔ ∃ value, map.get? key = some value := by
  rw [← not_iff_not, ← get?_eq_none_iff, ← Option.ne_none_iff_exists', not_not]

@[simp]
theorem get?_modify (map : IndexMap Key Value) (key : Key) (change : Value → Value)
    (wanted : Key) :
    (map.modify key change).get? wanted =
      if wanted = key then (map.get? wanted).map change else map.get? wanted := by
  simp only [get?, modify]
  induction map.entries with
  | nil => simp
  | cons entry entries ih =>
      rw [List.map_cons, lookup_cons_eq_ite, lookup_cons_eq_ite, ih]
      by_cases hentry : entry.1 = key <;> by_cases hwanted : wanted = entry.1
      · simp [hentry, hwanted]
      · simp [hentry, hentry ▸ hwanted]
      · simp [hentry, hwanted]
      · simp [hentry, hwanted]

theorem entries_modify (map : IndexMap Key Value) (key : Key) (change : Value → Value) :
    (map.modify key change).entries =
      map.entries.map fun entry => if entry.1 = key then (entry.1, change entry.2) else entry :=
  rfl

/-- What a change makes of the values under other keys does not matter. -/
theorem modify_congr {map : IndexMap Key Value} {key : Key} {change later : Value → Value}
    (hchange : ∀ value, map.get? key = some value → change value = later value) :
    map.modify key change = map.modify key later := by
  apply ext
  refine List.map_congr_left fun entry hentry => ?_
  by_cases hkey : entry.1 = key
  · rw [if_pos hkey, if_pos hkey, hchange entry.2]
    rw [get?_eq_some_iff_mem, ← hkey]
    exact hentry
  · rw [if_neg hkey, if_neg hkey]

theorem modify_modify (map : IndexMap Key Value) (key : Key) (change later : Value → Value) :
    (map.modify key change).modify key later =
      map.modify key fun value => later (change value) := by
  apply ext
  rw [entries_modify, entries_modify, entries_modify, List.map_map]
  refine List.map_congr_left fun entry _ => ?_
  by_cases hkey : entry.1 = key <;> simp [hkey]

theorem modify_comm (map : IndexMap Key Value) {key other : Key} (hkeys : key ≠ other)
    (change later : Value → Value) :
    (map.modify key change).modify other later = (map.modify other later).modify key change := by
  apply ext
  rw [entries_modify, entries_modify, entries_modify, entries_modify, List.map_map, List.map_map]
  refine List.map_congr_left fun entry _ => ?_
  by_cases hkey : entry.1 = key
  · simp [hkey, hkeys]
  · by_cases hother : entry.1 = other <;> simp [hkey, hother, hkeys.symm]

theorem get?_push (map : IndexMap Key Value) (key : Key) (value : Value)
    (habsent : key ∉ map.keys) (wanted : Key) :
    (map.push key value habsent).get? wanted =
      if wanted = key then some value else map.get? wanted := by
  have hnone := get?_eq_none_iff.mpr habsent
  rw [get?] at hnone ⊢
  rw [entries_push, List.lookup_append]
  by_cases hwanted : wanted = key
  · simp [hwanted, hnone]
  · simp [hwanted, lookup_cons_eq_ite, get?]

@[simp]
theorem get?_insert (map : IndexMap Key Value) (key : Key) (value : Value)
    (wanted : Key) :
    (map.insert key value).get? wanted =
      if wanted = key then some value else map.get? wanted := by
  rw [insert]
  split
  · rename_i habsent
    exact get?_push map key value habsent wanted
  · rename_i hpresent
    obtain ⟨old, hold⟩ := mem_keys_iff.mp (not_not.mp hpresent)
    by_cases hwanted : wanted = key
    · subst hwanted
      simp [hold]
    · simp [hwanted]

theorem entries_insert_of_not_mem {map : IndexMap Key Value} {key : Key}
    (habsent : key ∉ map.keys) (value : Value) :
    (map.insert key value).entries = map.entries ++ [(key, value)] := by
  rw [insert, dif_pos habsent, entries_push]

@[simp]
theorem get?_shiftRemove (map : IndexMap Key Value) (key wanted : Key) :
    (map.shiftRemove key).get? wanted =
      if wanted = key then none else map.get? wanted := by
  by_cases hwanted : wanted = key
  · rw [if_pos hwanted, get?_eq_none_iff]
    simp [keys, shiftRemove, hwanted]
  · rw [if_neg hwanted]
    refine Option.ext fun value => ?_
    rw [get?_eq_some_iff_mem, get?_eq_some_iff_mem]
    simp [shiftRemove, hwanted]

/-- Keep the entries whose keys pass a test. -/
def retain (map : IndexMap Key Value) (keep : Key → Bool) : IndexMap Key Value where
  entries := map.entries.filter fun entry => keep entry.1
  nodup_keys := (List.filter_sublist.map Prod.fst).nodup map.nodup_keys

@[simp]
theorem get?_retain (map : IndexMap Key Value) (keep : Key → Bool) (wanted : Key) :
    (map.retain keep).get? wanted = if keep wanted then map.get? wanted else none := by
  apply Option.ext
  intro value
  rw [get?_eq_some_iff_mem, retain, List.mem_filter]
  by_cases hkeep : keep wanted
  · rw [if_pos hkeep, get?_eq_some_iff_mem]
    exact and_iff_left hkeep
  · simp [hkeep]

theorem get?_retain_not (map : IndexMap Key Value) (removed : Key → Prop)
    [DecidablePred removed] (wanted : Key) :
    (map.retain fun key => ¬ removed key).get? wanted =
      if removed wanted then none else map.get? wanted := by
  rw [get?_retain]
  by_cases hremoved : removed wanted <;> simp [hremoved]

theorem not_mem_keys_shiftRemove (map : IndexMap Key Value) (key : Key) :
    key ∉ (map.shiftRemove key).keys := by
  simp [← get?_eq_none_iff]

theorem mem_keys_insert {map : IndexMap Key Value} {key wanted : Key} {value : Value} :
    wanted ∈ (map.insert key value).keys ↔ wanted = key ∨ wanted ∈ map.keys := by
  rw [mem_keys_iff, mem_keys_iff]
  by_cases hwanted : wanted = key <;> simp [hwanted]

theorem mem_keys_shiftRemove {map : IndexMap Key Value} {key wanted : Key} :
    wanted ∈ (map.shiftRemove key).keys ↔ wanted ≠ key ∧ wanted ∈ map.keys := by
  rw [mem_keys_iff, mem_keys_iff]
  by_cases hwanted : wanted = key <;> simp [hwanted]

theorem mem_keys_retain_not {map : IndexMap Key Value} {removed : Key → Prop}
    [DecidablePred removed] {wanted : Key} :
    (wanted ∈ (map.retain fun key => ¬ removed key).keys) ↔
      ¬ removed wanted ∧ wanted ∈ map.keys := by
  rw [mem_keys_iff, mem_keys_iff]
  simp only [get?_retain_not]
  by_cases hwanted : removed wanted <;> simp [hwanted]

/-- Removing a key and writing it again moves its entry to the end. -/
@[simp]
theorem entries_insert_shiftRemove (map : IndexMap Key Value) (key : Key)
    (value : Value) :
    ((map.shiftRemove key).insert key value).entries =
      (map.entries.filter fun entry => entry.1 ≠ key) ++ [(key, value)] := by
  rw [entries_insert_of_not_mem (map.not_mem_keys_shiftRemove key) value]
  rfl

theorem mem_of_mem_insert {map : IndexMap Key Value} {key : Key} {value : Value}
    {entry : Key × Value} (hentry : entry ∈ (map.insert key value).entries) :
    entry ∈ map.entries ∨ entry = (key, value) := by
  obtain ⟨found, result⟩ := entry
  rw [← get?_eq_some_iff_mem, get?_insert] at hentry
  by_cases hfound : found = key
  · right
    simp_all
  · left
    rwa [if_neg hfound, get?_eq_some_iff_mem] at hentry

/-- A collected map reads, at every key, the last pair of the iteration. -/
theorem get?_collect (entries : List (Key × Value)) (key : Key) :
    (collect entries).get? key =
      lastWrite (fun entry => if key = entry.1 then some entry.2 else none) entries := by
  have hread : ∀ (map : IndexMap Key Value) (entry : Key × Value),
      (map.insert entry.1 entry.2).get? key =
        (if key = entry.1 then some entry.2 else none).or (map.get? key) := by
    intro map entry
    rw [get?_insert]
    split <;> simp
  have hlast := read_foldl_eq_lastWrite_or (fun map entry => map.insert entry.1 entry.2)
    (fun map : IndexMap Key Value => map.get? key) _ hread entries ∅
  simpa [collect] using hlast

theorem mem_keys_collect {entries : List (Key × Value)} {key : Key} :
    key ∈ (collect entries).keys ↔ key ∈ entries.map Prod.fst := by
  rw [← not_iff_not, ← get?_eq_none_iff, get?_collect, lastWrite_eq_none_iff, List.mem_map]
  push Not
  refine forall₂_congr fun entry _ => ?_
  rw [ite_eq_right_iff]
  simp [eq_comm]

/-- A collected map holds no entry the iteration did not yield. -/
theorem mem_of_mem_collect {entries : List (Key × Value)} {entry : Key × Value}
    (hentry : entry ∈ (collect entries).entries) : entry ∈ entries := by
  induction entries using List.reverseRecOn with
  | nil => simp [collect] at hentry
  | append_singleton entries last ih =>
      rw [collect, List.foldl_append] at hentry
      rcases mem_of_mem_insert hentry with hearlier | hlast
      · exact List.mem_append_left _ (ih hearlier)
      · exact List.mem_append_right _ (by simpa using hlast)

/-- Inserting pairs with fresh, distinct keys appends them in order. -/
theorem entries_foldl_insert (entries : List (Key × Value)) (map : IndexMap Key Value)
    (hnodup : ((map.entries ++ entries).map Prod.fst).Nodup) :
    (entries.foldl (fun map entry => map.insert entry.1 entry.2) map).entries =
      map.entries ++ entries := by
  induction entries generalizing map with
  | nil => simp
  | cons entry entries ih =>
      have habsent : entry.1 ∉ map.keys := by
        intro hmem
        rw [List.map_append, List.nodup_append] at hnodup
        exact hnodup.2.2 entry.1 hmem entry.1 (by simp) rfl
      have hentries := entries_insert_of_not_mem habsent entry.2
      rw [List.foldl_cons, ih (map.insert entry.1 entry.2) (by
        rw [hentries]
        simpa using hnodup), hentries]
      simp

theorem entries_collect {entries : List (Key × Value)}
    (hnodup : (entries.map Prod.fst).Nodup) : (collect entries).entries = entries := by
  rw [collect, entries_foldl_insert entries ∅ (by simpa using hnodup)]
  simp

@[simp]
theorem collect_entries (map : IndexMap Key Value) : collect map.entries = map :=
  ext (entries_collect map.nodup_keys)

end Lookup

end IndexMap

/-- The order in which a hash map yields its entries, one that no caller may rely on. -/
structure HashOrder (Entry : Type*) where
  iterate : List Entry → List Entry
  perm : ∀ entries, (iterate entries).Perm entries

end RadicleArtifact.Library
