import Mathlib

/-!
# Interleavings

Several parties each issue operations in an order of their own, and a history arranges
them in one line.  Where operations of different parties commute, every arrangement of
the same sequences ends in the same state.
-/

namespace RadicleArtifact.Library

variable {State Op Party : Type*} [DecidableEq Party] (step : State → Op → State)
  (party : Op → Party)

/-- Both histories arrange the same sequence of every party. -/
def Interleave (left right : List Op) : Prop :=
  ∀ who, (left.filter fun op => party op = who) = right.filter fun op => party op = who

/-- From the states of the invariant, the operations stay among them and commute with
those of other parties. -/
structure Commuting (invariant : State → Prop) (ops : Set Op) : Prop where
  preserves : ∀ state, invariant state → ∀ op ∈ ops, invariant (step state op)
  commute : ∀ state, invariant state → ∀ left ∈ ops, ∀ right ∈ ops,
    party left ≠ party right →
      step (step state left) right = step (step state right) left

namespace Interleave

variable {party}

theorem nil_right {left : List Op} (hleft : Interleave party left []) : left = [] := by
  apply List.eq_nil_iff_forall_not_mem.mpr
  intro op hop
  have hmine : op ∈ left.filter fun other => party other = party op :=
    List.mem_filter.mpr ⟨hop, by simp⟩
  rw [hleft (party op), List.filter_nil] at hmine
  exact List.not_mem_nil hmine

/-- The first operation of one history stands in the other behind operations of other
parties only. -/
theorem exists_of_cons {op : Op} {left right : List Op}
    (hinterleave : Interleave party right (op :: left)) :
    ∃ before after, right = before ++ op :: after ∧ (∀ other ∈ before, party other ≠ party op) ∧
      Interleave party (before ++ after) left := by
  have hmine := hinterleave (party op)
  rw [List.filter_cons_of_pos (by simp)] at hmine
  obtain ⟨before, after, rfl, hbefore, -, hafter⟩ := List.filter_eq_cons_iff.mp hmine
  have hothers : ∀ other ∈ before, party other ≠ party op := by simpa using hbefore
  refine ⟨before, after, rfl, hothers, fun who => ?_⟩
  by_cases hwho : party op = who
  · subst hwho
    rw [List.filter_append, hafter, List.filter_eq_nil_iff.mpr hbefore, List.nil_append]
  · have hrest := hinterleave who
    have hskip : decide (party op = who) = false := decide_eq_false hwho
    rw [List.filter_append, List.filter_cons, hskip, List.filter_cons, hskip] at hrest
    rw [List.filter_append]
    exact hrest

end Interleave

variable {step party} {invariant : State → Prop} {ops : Set Op}

omit [DecidableEq Party] in
/-- An operation moves past the operations of other parties. -/
theorem Commuting.foldl_append_cons (hcommuting : Commuting step party invariant ops)
    {before after : List Op} {op : Op} (hop : op ∈ ops) (hbefore : ∀ other ∈ before, other ∈ ops)
    (hothers : ∀ other ∈ before, party other ≠ party op) {state : State}
    (hstate : invariant state) :
    (before ++ op :: after).foldl step state = (op :: (before ++ after)).foldl step state := by
  induction before generalizing state with
  | nil => rfl
  | cons first before ih =>
      obtain ⟨hfirst, hrest⟩ := List.forall_mem_cons.mp hbefore
      obtain ⟨hother, hlater⟩ := List.forall_mem_cons.mp hothers
      have hswap := hcommuting.commute state hstate first hfirst op hop hother
      calc ((first :: before) ++ op :: after).foldl step state
          = (op :: (before ++ after)).foldl step (step state first) :=
            ih hrest hlater (hcommuting.preserves state hstate first hfirst)
        _ = (before ++ after).foldl step (step (step state op) first) := by
            rw [List.foldl_cons, hswap]
        _ = (op :: ((first :: before) ++ after)).foldl step state := rfl

/-- Every arrangement of the parties' sequences ends in the same state. -/
theorem Commuting.foldl_eq_of_interleave (hcommuting : Commuting step party invariant ops)
    {left right : List Op} (hleft : ∀ op ∈ left, op ∈ ops) (hright : ∀ op ∈ right, op ∈ ops)
    (hinterleave : Interleave party right left) {state : State} (hstate : invariant state) :
    left.foldl step state = right.foldl step state := by
  induction left generalizing right state with
  | nil => rw [hinterleave.nil_right]
  | cons op left ih =>
      obtain ⟨hop, hlater⟩ := List.forall_mem_cons.mp hleft
      obtain ⟨before, after, rfl, hothers, hrest⟩ := hinterleave.exists_of_cons
      have hbefore : ∀ other ∈ before, other ∈ ops := fun other hother =>
        hright other (List.mem_append_left _ hother)
      have hafter : ∀ other ∈ before ++ after, other ∈ ops := by
        intro other hother
        rcases List.mem_append.mp hother with hother | hother
        · exact hbefore other hother
        · exact hright other (List.mem_append_right _ (List.mem_cons_of_mem op hother))
      rw [hcommuting.foldl_append_cons hop hbefore hothers hstate, List.foldl_cons,
        List.foldl_cons]
      exact ih hlater hafter hrest (hcommuting.preserves state hstate op hop)

end RadicleArtifact.Library
