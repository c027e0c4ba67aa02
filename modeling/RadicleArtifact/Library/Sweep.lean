import Mathlib

/-!
# Sweeps over keys

A sweep visits items one after the other, and each step changes only the part of
the state that the key of its item names.  With distinct keys, what a sweep does
to one part is what the single step for that key does to it.
-/

namespace RadicleArtifact.Library

variable {State Key Item Part : Type*} {step : State → Item → State} (key : Item → Key)
  (part : State → Key → Part)

/-- A sweep leaves the parts alone whose keys it does not visit. -/
theorem part_foldl_of_not_mem
    (hframe : ∀ state item other, other ≠ key item →
      part (step state item) other = part state other)
    {items : List Item} (state : State) {wanted : Key} (habsent : wanted ∉ items.map key) :
    part (items.foldl step state) wanted = part state wanted := by
  induction items generalizing state with
  | nil => rfl
  | cons item items ih =>
      rw [List.map_cons, List.mem_cons, not_or] at habsent
      rw [List.foldl_cons, ih (step state item) habsent.2, hframe state item wanted habsent.1]

/-- A sweep does to a visited part what the step for its key does. -/
theorem part_foldl_of_mem
    (hframe : ∀ state item other, other ≠ key item →
      part (step state item) other = part state other)
    (own : Item → Part → Part)
    (hown : ∀ state item, part (step state item) (key item) =
      own item (part state (key item)))
    {items : List Item} (hnodup : (items.map key).Nodup) (state : State) {item : Item}
    (hitem : item ∈ items) :
    part (items.foldl step state) (key item) = own item (part state (key item)) := by
  induction items generalizing state with
  | nil => simp at hitem
  | cons head items ih =>
      rw [List.map_cons, List.nodup_cons] at hnodup
      rw [List.foldl_cons]
      rcases List.mem_cons.mp hitem with rfl | htail
      · rw [part_foldl_of_not_mem key part hframe (step state item) hnodup.1, hown]
      · have hne : key item ≠ key head := by
          intro heq
          exact hnodup.1 (heq ▸ List.mem_map_of_mem htail)
        rw [ih hnodup.2 (step state head) htail, hframe state head (key item) hne]

/-- What every step of a sweep preserves, the sweep preserves. -/
theorem foldl_preserves {holds : State → Prop}
    (hstep : ∀ state item, holds state → holds (step state item)) (items : List Item)
    {state : State} (hstate : holds state) : holds (items.foldl step state) := by
  induction items generalizing state with
  | nil => exact hstate
  | cons item items ih => exact ih (hstep state item hstate)

end RadicleArtifact.Library
