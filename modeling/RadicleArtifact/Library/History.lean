import Mathlib

/-!
# Histories of operations

A history is the list of operations applied to a state, oldest first.  This
module relates the state a history leads to with questions about the history
itself: which operation wrote a component last, and which operation was the
first of its kind.  Nothing here depends on what the operations are.
-/

namespace RadicleArtifact.Library

variable {Op State Value View : Type*}

/-- The value written by the last operation of the history that writes one. -/
def lastWrite (write : Op → Option Value) (history : List Op) : Option Value :=
  history.reverse.findSome? write

@[simp]
theorem lastWrite_append (write : Op → Option Value) (earlier later : List Op) :
    lastWrite write (earlier ++ later) =
      (lastWrite write later).or (lastWrite write earlier) := by
  simp [lastWrite, List.findSome?_append]

theorem lastWrite_cons (write : Op → Option Value) (op : Op) (later : List Op) :
    lastWrite write (op :: later) = (lastWrite write later).or (write op) := by
  simp [lastWrite, List.findSome?_append]

theorem lastWrite_eq_none_iff {write : Op → Option Value} {history : List Op} :
    lastWrite write history = none ↔ ∀ op ∈ history, write op = none := by
  simp [lastWrite, List.findSome?_eq_none_iff]

theorem exists_of_lastWrite_eq_some {write : Op → Option Value} {history : List Op}
    {value : Value} (hlast : lastWrite write history = some value) :
    ∃ op ∈ history, write op = some value := by
  obtain ⟨op, hop, hwrite⟩ := List.exists_of_findSome?_eq_some hlast
  exact ⟨op, List.mem_reverse.mp hop, hwrite⟩

theorem lastWrite_map (write : Op → Option Value) (read : Value → View) (history : List Op) :
    lastWrite (fun op => (write op).map read) history = (lastWrite write history).map read := by
  induction history with
  | nil => rfl
  | cons op history ih => rw [lastWrite_cons, lastWrite_cons, ih, Option.map_or]

/-- Operations that write nothing can be inserted or deleted freely. -/
theorem lastWrite_filter {write : Op → Option Value} (keep : Op → Bool)
    (hkeep : ∀ op, keep op = false → write op = none) (history : List Op) :
    lastWrite write (history.filter keep) = lastWrite write history := by
  induction history with
  | nil => rfl
  | cons op history ih =>
      rw [List.filter_cons, lastWrite_cons]
      split
      · rw [lastWrite_cons, ih]
      · rename_i hdrop
        rw [ih, hkeep op (by simpa using hdrop), Option.or_none]

/-- The same of operations that come in batches. -/
theorem lastWrite_flatMap_filter {Batch : Type*} {write : Op → Option Value}
    (batch : Batch → List Op) (keep : Batch → Bool)
    (hkeep : ∀ item, keep item = false → ∀ op ∈ batch item, write op = none)
    (items : List Batch) :
    lastWrite write ((items.filter keep).flatMap batch) =
      lastWrite write (items.flatMap batch) := by
  induction items with
  | nil => rfl
  | cons item items ih =>
      rw [List.filter_cons, List.flatMap_cons, lastWrite_append]
      split
      · rw [List.flatMap_cons, lastWrite_append, ih]
      · rename_i hdrop
        rw [ih, lastWrite_eq_none_iff.mpr (hkeep item (by simpa using hdrop)), Option.or_none]

/-- In a history sorted by a key, the write at the greatest key is the last. -/
theorem lastWrite_of_pairwise {Key : Type*} [LinearOrder Key] {key : Op → Key}
    {write : Op → Option Value} {history : List Op}
    (hsorted : history.Pairwise fun left right => key left < key right) {op : Op}
    (hop : op ∈ history) {value : Value} (hwrite : write op = some value)
    (hgreatest : ∀ other ∈ history, write other ≠ none → key other ≤ key op) :
    lastWrite write history = some value := by
  obtain ⟨earlier, later, rfl⟩ := List.append_of_mem hop
  have hafter := (List.pairwise_cons.mp (List.pairwise_append.mp hsorted).2.1).1
  have hlater : lastWrite write later = none := by
    rw [lastWrite_eq_none_iff]
    intro other hother
    by_contra hwrites
    exact (hgreatest other (by simp [hother]) hwrites).not_gt (hafter other hother)
  rw [lastWrite_append, lastWrite_cons, hlater, Option.none_or, hwrite, Option.some_or]

/-- A component that every operation either overwrites or leaves alone holds
the last write, in every run that keeps the invariant the component relies on. -/
theorem read_foldl_eq_lastWrite (step : State → Op → State) (read : State → View)
    (write : Op → Option View) (invariant : State → Prop)
    (hinvariant : ∀ state op, invariant state → invariant (step state op))
    (hread : ∀ state op, invariant state →
      read (step state op) = (write op).getD (read state))
    (history : List Op) (state : State) (hstate : invariant state) :
    read (history.foldl step state) =
      (lastWrite write history).getD (read state) := by
  induction history generalizing state with
  | nil => rfl
  | cons op history ih =>
      rw [List.foldl_cons, ih (step state op) (hinvariant state op hstate),
        hread state op hstate, lastWrite_cons]
      cases lastWrite write history <;> simp

/-- The same law for a component that may be absent. -/
theorem read_foldl_eq_lastWrite_or (step : State → Op → State)
    (read : State → Option Value) (write : Op → Option Value)
    (hread : ∀ state op, read (step state op) = (write op).or (read state))
    (history : List Op) (state : State) :
    read (history.foldl step state) = (lastWrite write history).or (read state) := by
  induction history generalizing state with
  | nil => rfl
  | cons op history ih =>
      rw [List.foldl_cons, ih (step state op), hread state op, lastWrite_cons,
        Option.or_assoc]

/-- Split a history at its first operation of a kind. -/
theorem exists_first_of_mem (kind : Op → Prop) [DecidablePred kind]
    {history : List Op} (hsome : ∃ op ∈ history, kind op) :
    ∃ earlier op later, history = earlier ++ op :: later ∧ kind op ∧
      ∀ other ∈ earlier, ¬ kind other := by
  induction history with
  | nil => simp at hsome
  | cons head history ih =>
      by_cases hhead : kind head
      · exact ⟨[], head, history, rfl, hhead, by simp⟩
      · obtain ⟨op, hmem, hop⟩ := hsome
        have htail : ∃ op ∈ history, kind op := by
          rcases List.mem_cons.mp hmem with rfl | hmem
          · exact absurd hop hhead
          · exact ⟨op, hmem, hop⟩
        obtain ⟨earlier, op, later, rfl, hkind, hnone⟩ := ih htail
        refine ⟨head :: earlier, op, later, rfl, hkind, fun other hother => ?_⟩
        rcases List.mem_cons.mp hother with rfl | hother
        · exact hhead
        · exact hnone other hother

/-- There is only one first operation of a kind. -/
theorem eq_of_first (kind : Op → Prop) [DecidablePred kind]
    {earlier later earlier' later' : List Op} {op op' : Op}
    (hhistory : earlier ++ op :: later = earlier' ++ op' :: later')
    (hop : kind op) (hop' : kind op')
    (hearlier : ∀ other ∈ earlier, ¬ kind other)
    (hearlier' : ∀ other ∈ earlier', ¬ kind other) : op = op' ∧ later = later' := by
  have hdrop : ∀ (before after : List Op) (first : Op), kind first →
      (∀ other ∈ before, ¬ kind other) →
        (before ++ first :: after).dropWhile (fun other => ¬ kind other) =
          first :: after := by
    intro before after first hfirst hbefore
    rw [List.dropWhile_append_of_pos (by simpa using hbefore),
      List.dropWhile_cons_of_neg (by simpa using hfirst)]
  have hsame := hdrop earlier later op hop hearlier
  rw [hhistory, hdrop earlier' later' op' hop' hearlier'] at hsame
  simpa [eq_comm] using hsame

/-- Histories that agree on the operations a test keeps, the kind among them,
agree on the first operation of the kind and on what is kept after it. -/
theorem exists_first_of_filter_eq (kind : Op → Prop) [DecidablePred kind]
    {keep : Op → Bool} (hkeep : ∀ op, kind op → keep op = true)
    {earlier later history : List Op} {op : Op} (hop : kind op)
    (hearlier : ∀ other ∈ earlier, ¬ kind other)
    (hsame : history.filter keep = (earlier ++ op :: later).filter keep) :
    ∃ earlier' later', history = earlier' ++ op :: later' ∧
      (∀ other ∈ earlier', ¬ kind other) ∧
        later'.filter keep = later.filter keep := by
  have hmem : op ∈ history := by
    have hkept : op ∈ (earlier ++ op :: later).filter keep := by
      simp [hkeep op hop]
    rw [← hsame] at hkept
    exact (List.mem_filter.mp hkept).1
  obtain ⟨earlier', op', later', rfl, hop', hearlier'⟩ :=
    exists_first_of_mem kind ⟨op, hmem, hop⟩
  rw [List.filter_append, List.filter_append, List.filter_cons_of_pos (hkeep op hop),
    List.filter_cons_of_pos (hkeep op' hop')] at hsame
  obtain ⟨rfl, hlater⟩ := eq_of_first kind hsame hop' hop
    (fun other hother => hearlier' other (List.mem_filter.mp hother).1)
    (fun other hother => hearlier other (List.mem_filter.mp hother).1)
  exact ⟨earlier', later', rfl, hearlier', hlater⟩

end RadicleArtifact.Library
