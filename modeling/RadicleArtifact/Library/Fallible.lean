import Mathlib

/-!
# Lists of fallible results

Reading a list item by item with a function that can fail either reads every
item or stops at the first failure.
-/

namespace RadicleArtifact.Library

variable {Error Item Result Key : Type} {read : Item → Except Error Result}

theorem map_eq_ok_iff {change : Item → Result} {item : Except Error Item} {result : Result} :
    item.map change = .ok result ↔ ∃ value, item = .ok value ∧ change value = result := by
  cases item <;> simp [Except.map]

theorem mapError_eq_ok_iff {Later : Type} {change : Error → Later} {item : Except Error Item}
    {value : Item} : item.mapError change = .ok value ↔ item = .ok value := by
  cases item <;> simp [Except.mapError]

/-- A computation in two steps succeeds when both do. -/
theorem bind_eq_ok_iff {item : Except Error Item} {next : Item → Except Error Result}
    {result : Result} :
    item >>= next = .ok result ↔ ∃ value, item = .ok value ∧ next value = .ok result := by
  cases item <;> simp [bind, Except.bind]

theorem toOption_eq_some_iff {item : Except Error Item} {value : Item} :
    item.toOption = some value ↔ item = .ok value := by
  cases item <;> simp [Except.toOption]

theorem mapM_cons_eq_ok_iff {item : Item} {items : List Item} {results : List Result} :
    (item :: items).mapM read = .ok results ↔
      ∃ result rest, read item = .ok result ∧ items.mapM read = .ok rest ∧
        results = result :: rest := by
  rw [List.mapM_cons]
  cases hread : read item with
  | error err => simp [bind, Except.bind]
  | ok result =>
      cases hrest : items.mapM read with
      | error err => simp [bind, Except.bind]
      | ok rest => simp [bind, Except.bind, pure, Except.pure, eq_comm]

/-- Reading succeeds exactly when every item reads, each to its own result. -/
theorem mapM_eq_ok_iff_map_eq {items : List Item} {results : List Result} :
    items.mapM read = .ok results ↔ items.map read = results.map Except.ok := by
  induction items generalizing results with
  | nil => cases results <;> simp [pure, Except.pure]
  | cons item items ih =>
      simp only [mapM_cons_eq_ok_iff, ih]
      cases results with
      | nil => simp
      | cons result rest => simp

section Read

variable {items : List Item} {results : List Result}
  (hresults : items.mapM read = .ok results)
include hresults

/-- When every item could be read, each has a result. -/
theorem exists_ok_of_mapM_eq_ok {item : Item} (hitem : item ∈ items) :
    ∃ result, read item = .ok result := by
  have hmem : read item ∈ items.map read := List.mem_map_of_mem hitem
  rw [mapM_eq_ok_iff_map_eq.mp hresults] at hmem
  obtain ⟨result, -, hresult⟩ := List.mem_map.mp hmem
  exact ⟨result, hresult.symm⟩

theorem mem_of_mapM_eq_ok {result : Result} :
    result ∈ results ↔ ∃ item ∈ items, read item = .ok result :=
  calc
    result ∈ results
      ↔ Except.ok result ∈ results.map (Except.ok : Result → Except Error Result) :=
        (List.mem_map_of_injective fun _ _ => Except.ok.inj).symm
    _ ↔ Except.ok result ∈ items.map read := by rw [mapM_eq_ok_iff_map_eq.mp hresults]
    _ ↔ ∃ item ∈ items, read item = .ok result := List.mem_map

/-- When nothing fails, skipping failures skips nothing. -/
theorem filterMap_toOption_of_mapM_eq_ok :
    (items.map read).filterMap Except.toOption = results := by
  rw [mapM_eq_ok_iff_map_eq.mp hresults, List.filterMap_map]
  exact List.filterMap_some

/-- Results that keep the key of their item keep the keys of the list. -/
theorem map_of_mapM_eq_ok {itemKey : Item → Key} {resultKey : Result → Key}
    (hkey : ∀ item result, read item = .ok result → resultKey result = itemKey item) :
    results.map resultKey = items.map itemKey := by
  apply List.map_injective_iff.mpr (fun _ _ => Except.ok.inj : Function.Injective
    (Except.ok : Key → Except Error Key))
  calc
    (results.map resultKey).map Except.ok
        = (results.map Except.ok).map (Except.map resultKey) := by
          simp [Function.comp_def, Except.map]
    _ = (items.map read).map (Except.map resultKey) := by
          rw [mapM_eq_ok_iff_map_eq.mp hresults]
    _ = (items.map itemKey).map Except.ok := by
          rw [List.map_map, List.map_map]
          apply List.map_congr_left
          intro item hitem
          obtain ⟨result, hresult⟩ := exists_ok_of_mapM_eq_ok hresults hitem
          exact map_eq_ok_iff.mpr ⟨result, hresult, hkey item result hresult⟩

end Read

theorem mapM_eq_ok_of_forall {items : List Item}
    (hitems : ∀ item ∈ items, ∃ result, read item = .ok result) :
    ∃ results, items.mapM read = .ok results := by
  have hrange : items.map read ∈ Set.range (List.map Except.ok) := by
    rw [Set.range_list_map]
    intro outcome houtcome
    obtain ⟨item, hitem, rfl⟩ := List.mem_map.mp houtcome
    obtain ⟨result, hresult⟩ := hitems item hitem
    exact ⟨result, hresult.symm⟩
  obtain ⟨results, hresults⟩ := hrange
  exact ⟨results, mapM_eq_ok_iff_map_eq.mpr hresults.symm⟩

/-- Lists with the same members and distinct keys are permutations of each other. -/
theorem perm_of_nodup_keys {left right : List (Key × Result)}
    (hleft : (left.map Prod.fst).Nodup) (hright : (right.map Prod.fst).Nodup)
    (hmem : ∀ entry, entry ∈ left ↔ entry ∈ right) : left.Perm right :=
  (List.perm_ext_iff_of_nodup hleft.of_map hright.of_map).mpr hmem

end RadicleArtifact.Library
