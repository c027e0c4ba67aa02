import Mathlib

/-!
# Ordered maps and sets

Rust's `BTreeMap` and `BTreeSet` are maps and sets kept in key order.  Lean's
extensional tree maps have the same observable behaviour: two of them are equal
exactly when they hold the same entries, and `toList` visits the entries in key
order.  The lemmas below state the standard ones for a linear order and cover
the one idiom the standard library has no lemma for: collecting a filtered
iteration into a new map.
-/

namespace RadicleArtifact.Library

/-- An ordered map over a linearly ordered key type. -/
abbrev BTreeMap (Key Value : Type*) [LinearOrder Key] :=
  Std.ExtTreeMap Key Value compare

/-- An ordered set over a linearly ordered type. -/
abbrev BTreeSet (Key : Type*) [LinearOrder Key] :=
  Std.ExtTreeSet Key compare

namespace BTreeMap

variable {Key Value Result : Type*} [LinearOrder Key]

theorem getElem?_insert_eq_ite (map : BTreeMap Key Value) (key : Key) (value : Value)
    (wanted : Key) :
    (map.insert key value)[wanted]? = if wanted = key then some value else map[wanted]? := by
  simp only [Std.ExtTreeMap.getElem?_insert, compare_eq_iff_eq, eq_comm (a := key)]

theorem getElem?_alter_eq_ite (map : BTreeMap Key Value) (key : Key)
    (change : Option Value → Option Value) (wanted : Key) :
    (map.alter key change)[wanted]? =
      if wanted = key then change map[key]? else map[wanted]? := by
  simp only [Std.ExtTreeMap.getElem?_alter, compare_eq_iff_eq, eq_comm (a := key)]

/-- Changes at different keys commute. -/
theorem alter_comm (map : BTreeMap Key Value) {key other : Key} (hkeys : key ≠ other)
    (change later : Option Value → Option Value) :
    (map.alter key change).alter other later = (map.alter other later).alter key change := by
  refine Std.ExtTreeMap.ext_getElem? fun wanted => ?_
  simp only [getElem?_alter_eq_ite]
  by_cases hkey : wanted = key
  · simp [hkey, hkeys]
  · by_cases hother : wanted = other <;> simp [hkey, hother, hkeys.symm]

theorem insert_comm (map : BTreeMap Key Value) {key other : Key} (hkeys : key ≠ other)
    (value later : Value) :
    (map.insert key value).insert other later = (map.insert other later).insert key value := by
  refine Std.ExtTreeMap.ext_getElem? fun wanted => ?_
  simp only [getElem?_insert_eq_ite]
  by_cases hkey : wanted = key
  · simp [hkey, hkeys]
  · simp [hkey]

/-- `FromIterator`: insert the pairs of an iteration one after the other. -/
def collect (entries : List (Key × Value)) : BTreeMap Key Value :=
  Std.ExtTreeMap.ofList entries compare

theorem getElem?_collect_of_mem {entries : List (Key × Value)} {key : Key}
    {value : Value} (hdistinct : (entries.map Prod.fst).Nodup)
    (hmem : (key, value) ∈ entries) : (collect entries)[key]? = some value := by
  refine Std.ExtTreeMap.getElem?_ofList_of_mem (k := key) (by simp) ?_ hmem
  rw [List.Nodup, List.pairwise_map] at hdistinct
  simpa using hdistinct

theorem getElem?_collect_of_not_mem {entries : List (Key × Value)} {key : Key}
    (habsent : key ∉ entries.map Prod.fst) : (collect entries)[key]? = none := by
  refine Std.ExtTreeMap.getElem?_ofList_of_contains_eq_false ?_
  simpa using habsent

theorem getElem?_collect_eq_some_iff {entries : List (Key × Value)} {key : Key}
    {value : Value} (hdistinct : (entries.map Prod.fst).Nodup) :
    (collect entries)[key]? = some value ↔ (key, value) ∈ entries := by
  constructor
  · intro hvalue
    by_cases hkey : key ∈ entries.map Prod.fst
    · obtain ⟨⟨found, other⟩, hentry, rfl⟩ := List.mem_map.mp hkey
      rw [getElem?_collect_of_mem hdistinct hentry] at hvalue
      rwa [← Option.some.inj hvalue]
    · rw [getElem?_collect_of_not_mem hkey] at hvalue
      cases hvalue
  · exact getElem?_collect_of_mem hdistinct

theorem nodup_keys_toList (map : BTreeMap Key Value) :
    (map.toList.map Prod.fst).Nodup := by
  rw [List.Nodup, List.pairwise_map]
  simpa using Std.ExtTreeMap.distinct_keys_toList (t := map)

@[simp]
theorem mem_toList {map : BTreeMap Key Value} {key : Key} {value : Value} :
    (key, value) ∈ map.toList ↔ map[key]? = some value :=
  Std.ExtTreeMap.mem_toList_iff_getElem?_eq_some

/-- Collecting an iteration that keeps each key and maps or drops its value
reads, at every key, the transformed value. -/
theorem getElem?_collect_filterMap (map : BTreeMap Key Value)
    (select : Key → Value → Option Result) (key : Key) :
    (collect (map.toList.filterMap fun entry =>
      (select entry.1 entry.2).map (entry.1, ·)))[key]? =
        map[key]?.bind (select key) := by
  have hdistinct : ((map.toList.filterMap fun entry =>
      (select entry.1 entry.2).map (entry.1, ·)).map Prod.fst).Nodup := by
    have hsub : ((map.toList.filterMap fun entry =>
        (select entry.1 entry.2).map (entry.1, ·)).map Prod.fst).Sublist
          (map.toList.map Prod.fst) := by
      induction map.toList with
      | nil => simp
      | cons entry entries ih =>
          cases hselect : select entry.1 entry.2 with
          | none => simpa [hselect] using ih.trans (List.sublist_cons_self _ _)
          | some result => simpa [hselect] using ih.cons_cons entry.1
    exact hsub.nodup (nodup_keys_toList map)
  cases hresult : map[key]?.bind (select key) with
  | some result =>
      obtain ⟨value, hvalue, hselect⟩ := Option.bind_eq_some_iff.mp hresult
      refine getElem?_collect_of_mem hdistinct (List.mem_filterMap.mpr ?_)
      exact ⟨(key, value), mem_toList.mpr hvalue, by simp [hselect]⟩
  | none =>
      refine getElem?_collect_of_not_mem fun hmem => ?_
      obtain ⟨⟨found, result⟩, hfound, rfl⟩ := List.mem_map.mp hmem
      obtain ⟨⟨found', value⟩, hentry, hselect⟩ := List.mem_filterMap.mp hfound
      obtain ⟨result', hresult', heq⟩ := Option.map_eq_some_iff.mp hselect
      obtain ⟨rfl, rfl⟩ := Prod.mk.inj heq
      have : map[found']?.bind (select found') = some result' := by
        simp [mem_toList.mp hentry, hresult']
      simp_all

/-- Collecting the entries that pass a test keeps exactly those entries. -/
theorem getElem?_collect_filter (map : BTreeMap Key Value)
    (keep : Key → Value → Bool) (key : Key) :
    (collect (map.toList.filter fun entry => keep entry.1 entry.2))[key]? =
      map[key]?.filter (keep key) := by
  have hfilter : (map.toList.filter fun entry => keep entry.1 entry.2) =
      map.toList.filterMap fun entry =>
        (if keep entry.1 entry.2 then some entry.2 else none).map (entry.1, ·) := by
    rw [← List.filterMap_eq_filter]
    congr 1
    funext entry
    by_cases hkeep : keep entry.1 entry.2 <;> simp [Option.guard, hkeep]
  rw [hfilter, getElem?_collect_filterMap map
    (fun key value => if keep key value then some value else none) key]
  cases map[key]? <;> simp [Option.filter]

@[simp]
theorem collect_toList (map : BTreeMap Key Value) : collect map.toList = map := by
  refine Std.ExtTreeMap.ext_getElem? fun key => ?_
  cases hvalue : map[key]? with
  | some value =>
      exact getElem?_collect_of_mem (nodup_keys_toList map) (mem_toList.mpr hvalue)
  | none =>
      refine getElem?_collect_of_not_mem fun hmem => ?_
      obtain ⟨⟨found, value⟩, hentry, rfl⟩ := List.mem_map.mp hmem
      simp [mem_toList.mp hentry] at hvalue

end BTreeMap

namespace BTreeSet

variable {Key : Type*} [LinearOrder Key]

/-- `FromIterator`: insert the items of an iteration one after the other. -/
def collect (items : List Key) : BTreeSet Key :=
  Std.ExtTreeSet.ofList items compare

theorem insert_comm (set : BTreeSet Key) (key other : Key) :
    (set.insert key).insert other = (set.insert other).insert key := by
  refine Std.ExtTreeSet.ext_mem fun wanted => ?_
  simp only [Std.ExtTreeSet.mem_insert]
  exact or_left_comm

theorem erase_comm (set : BTreeSet Key) (key other : Key) :
    (set.erase key).erase other = (set.erase other).erase key := by
  refine Std.ExtTreeSet.ext_mem fun wanted => ?_
  simp only [Std.ExtTreeSet.mem_erase]
  exact and_left_comm

theorem insert_erase_comm (set : BTreeSet Key) {key other : Key} (hkeys : key ≠ other) :
    (set.insert key).erase other = (set.erase other).insert key := by
  refine Std.ExtTreeSet.ext_mem fun wanted => ?_
  simp only [Std.ExtTreeSet.mem_insert, Std.ExtTreeSet.mem_erase, compare_eq_iff_eq, ne_eq]
  by_cases hwanted : key = wanted
  · subst hwanted
    simp [hkeys.symm]
  · simp [hwanted]

@[simp]
theorem collect_toList (set : BTreeSet Key) : collect set.toList = set := by
  refine Std.ExtTreeSet.ext_mem fun key => ?_
  rw [collect, Std.ExtTreeSet.mem_ofList, List.contains_iff_mem,
    Std.ExtTreeSet.mem_toList]

end BTreeSet

end RadicleArtifact.Library
