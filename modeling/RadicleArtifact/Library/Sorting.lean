import Mathlib

/-!
# Stable sorting

Rust's `sort_by_key` is stable, so its result is determined by the keys and the
order of the input.  Sorting by descending key, the first element of any kind
is the first largest one of the input.
-/

namespace RadicleArtifact.Library

/-- Of two items of a list one comes first. -/
theorem or_flip_of_pairwise {Item : Type*} {related : Item → Item → Prop} {items : List Item}
    (hpairwise : items.Pairwise related) {left right : Item} (hleft : left ∈ items)
    (hright : right ∈ items) (hne : left ≠ right) : related left right ∨ related right left := by
  have hsymm : Std.Symm fun left right => related left right ∨ related right left :=
    ⟨fun _ _ => Or.symm⟩
  have heither : items.Pairwise fun left right => related left right ∨ related right left :=
    hpairwise.imp Or.inl
  exact heither.forall hleft hright hne

variable {Item Key : Type*} [LinearOrder Key]

/-- `sort_by_key(|item| Reverse(key(item)))` -/
def sortByKeyDesc (key : Item → Key) (items : List Item) : List Item :=
  items.insertionSort fun left right => key right ≤ key left

section Desc

variable (key : Item → Key)

local instance totalDesc : Std.Total fun left right : Item => key right ≤ key left :=
  ⟨fun left right => le_total (key right) (key left)⟩

local instance transDesc : IsTrans Item fun left right => key right ≤ key left :=
  ⟨fun _ _ _ hleft hright => hright.trans hleft⟩

theorem perm_sortByKeyDesc (items : List Item) : (sortByKeyDesc key items).Perm items :=
  List.perm_insertionSort _ items

@[simp]
theorem mem_sortByKeyDesc {items : List Item} {item : Item} :
    item ∈ sortByKeyDesc key items ↔ item ∈ items :=
  (perm_sortByKeyDesc key items).mem_iff

theorem pairwise_sortByKeyDesc (items : List Item) :
    (sortByKeyDesc key items).Pairwise fun left right => key right ≤ key left :=
  List.pairwise_insertionSort _ items

/-- With distinct keys, a descending arrangement of the items is the sorted one. -/
theorem eq_sortByKeyDesc_of_perm {arranged items : List Item}
    (hinjective : ∀ left ∈ items, ∀ right ∈ items, key left = key right → left = right)
    (hperm : arranged.Perm items)
    (hdescending : arranged.Pairwise fun left right => key right ≤ key left) :
    arranged = sortByKeyDesc key items := by
  refine List.Perm.eq_of_pairwise (fun left right hleft hright hle hge => ?_) hdescending
    (pairwise_sortByKeyDesc key items) (hperm.trans (perm_sortByKeyDesc key items).symm)
  exact hinjective left (hperm.mem_iff.mp hleft) right ((mem_sortByKeyDesc key).mp hright)
    (le_antisymm hge hle)

/-- Inserting into a sorted list puts the item first among its kind exactly when
no item of the kind has a larger key. -/
theorem find?_orderedInsert (kind : Item → Bool) (item : Item) {items : List Item}
    (hsorted : items.Pairwise fun left right => key right ≤ key left) :
    (items.orderedInsert (fun left right => key right ≤ key left) item).find? kind =
      if kind item then
        (items.find? kind).elim (some item) fun found =>
          if key item < key found then some found else some item
      else items.find? kind := by
  induction items with
  | nil => cases hitem : kind item <;> simp [hitem]
  | cons head tail ih =>
      obtain ⟨hhead, htail⟩ := List.pairwise_cons.mp hsorted
      rw [List.orderedInsert_cons]
      by_cases hle : key head ≤ key item
      · rw [if_pos hle, List.find?_cons]
        by_cases hitem : kind item
        · simp only [hitem, if_true]
          cases hfound : (head :: tail).find? kind with
          | none => rfl
          | some found =>
              have hbelow : key found ≤ key head := by
                rcases List.mem_cons.mp (List.mem_of_find?_eq_some hfound) with rfl | hmem
                · exact le_rfl
                · exact hhead found hmem
              simp [not_lt.mpr (hbelow.trans hle)]
        · simp [hitem]
      · rw [if_neg hle, List.find?_cons, List.find?_cons, ih htail]
        by_cases hkind : kind head
        · simp [hkind, not_le.mp hle]
        · simp [hkind]

/-- After the sort, the first item of a kind is the first largest of the kind. -/
theorem find?_sortByKeyDesc (kind : Item → Bool) (items : List Item) :
    (sortByKeyDesc key items).find? kind = (items.filter kind).argmax key := by
  induction items with
  | nil => rfl
  | cons item items ih =>
      have hsorted := pairwise_sortByKeyDesc key items
      rw [sortByKeyDesc] at hsorted ih ⊢
      rw [List.insertionSort_cons, find?_orderedInsert key kind item hsorted, ih,
        List.filter_cons]
      by_cases hitem : kind item
      · rw [if_pos hitem, if_pos hitem, List.argmax_cons]
        cases (items.filter kind).argmax key <;> rfl
      · rw [if_neg hitem, if_neg hitem]

end Desc

/-- `sort_by_key(key)` -/
def sortByKey (key : Item → Key) (items : List Item) : List Item :=
  items.insertionSort fun left right => key left ≤ key right

section Asc

variable (key : Item → Key)

local instance totalAsc : Std.Total fun left right : Item => key left ≤ key right :=
  ⟨fun left right => le_total (key left) (key right)⟩

local instance transAsc : IsTrans Item fun left right => key left ≤ key right :=
  ⟨fun _ _ _ hleft hright => hleft.trans hright⟩

theorem perm_sortByKey (items : List Item) : (sortByKey key items).Perm items :=
  List.perm_insertionSort _ items

@[simp]
theorem mem_sortByKey {items : List Item} {item : Item} :
    item ∈ sortByKey key items ↔ item ∈ items :=
  (perm_sortByKey key items).mem_iff

theorem pairwise_sortByKey (items : List Item) :
    (sortByKey key items).Pairwise fun left right => key left ≤ key right :=
  List.pairwise_insertionSort _ items

/-- Where the keys tell the items apart, the order of the input is lost. -/
theorem sortByKey_eq_of_perm {items later : List Item}
    (hinjective : ∀ left ∈ items, ∀ right ∈ items, key left = key right → left = right)
    (hperm : items.Perm later) : sortByKey key items = sortByKey key later := by
  have hsorted := ((perm_sortByKey key items).trans hperm).trans (perm_sortByKey key later).symm
  refine List.Perm.eq_of_pairwise (fun left right hleft hright hle hge => ?_)
    (pairwise_sortByKey key items) (pairwise_sortByKey key later) hsorted
  have hmem : right ∈ items := hperm.mem_iff.mpr ((mem_sortByKey key).mp hright)
  exact hinjective left ((mem_sortByKey key).mp hleft) right hmem (le_antisymm hle hge)

/-- The sort is stable: items of one key keep their order. -/
theorem filter_sortByKey [DecidableEq Key] (value : Key) (items : List Item) :
    (sortByKey key items).filter (fun item => key item = value) =
      items.filter fun item => key item = value := by
  have hequal : (items.filter fun item => key item = value).Pairwise
      fun left right => key left ≤ key right := by
    refine List.pairwise_of_forall_mem_list fun left hleft right hright => ?_
    have hvalue : ∀ item ∈ items.filter (fun item => key item = value), key item = value :=
      fun item hitem => by simpa using (List.mem_filter.mp hitem).2
    rw [hvalue left hleft, hvalue right hright]
  have hsub := (List.sublist_insertionSort hequal List.filter_sublist).filter
    fun item => decide (key item = value)
  rw [List.filter_filter] at hsub
  simp only [Bool.and_self] at hsub
  have hsorted := (perm_sortByKey key items).filter fun item => decide (key item = value)
  have hlength := hsorted.length_eq
  exact (hsub.eq_of_length hlength.symm).symm

end Asc

/-- `max_by_key`: the last of the items with the largest key. -/
def maxByKey (key : Item → Key) (items : List Item) : Option Item :=
  items.reverse.argmax key

theorem mem_of_maxByKey_eq_some {key : Item → Key} {items : List Item} {item : Item}
    (hmax : maxByKey key items = some item) : item ∈ items :=
  List.mem_reverse.mp (List.argmax_mem (Option.mem_def.mpr hmax))

@[simp]
theorem maxByKey_eq_none_iff {key : Item → Key} {items : List Item} :
    maxByKey key items = none ↔ items = [] := by
  rw [maxByKey, List.argmax_eq_none, List.reverse_eq_nil_iff]

/-- Where strings of one length differ, what follows them does not matter. -/
theorem append_lt_append {Item : Type*} [LinearOrder Item] {left right : List Item}
    (hlength : left.length = right.length) (hlt : left < right) (rest rest' : List Item) :
    left ++ rest < right ++ rest' := by
  induction left generalizing right with
  | nil =>
      rw [List.eq_nil_of_length_eq_zero hlength.symm] at hlt
      exact absurd hlt (lt_irrefl _)
  | cons item left ih =>
      cases right with
      | nil => contradiction
      | cons item' right =>
          rw [List.cons_append, List.cons_append, List.cons_lt_cons_iff]
          rcases List.cons_lt_cons_iff.mp hlt with hitem | ⟨hitem, hrest⟩
          · exact .inl hitem
          · exact .inr ⟨hitem, ih (Nat.succ.inj hlength) hrest⟩

end RadicleArtifact.Library
