import Mathlib

/-!
# Arrangements of causally ordered events

Every event has a past: the events it was made after.  An arrangement puts a set of events
in one line with no event in front of its past.  Two arrangements of the same events agree
on every chain, and so on everything that depends on a chain alone.
-/

namespace RadicleArtifact.Library

variable {Id : Type*} [DecidableEq Id]

/-- The list arranges the known events: each of them once, none before its past. -/
structure Arranges (past : Id → Finset Id) (known : Finset Id) (order : List Id) : Prop where
  nodup : order.Nodup
  known : order.toFinset = known
  causal : order.Pairwise fun left right => right ∉ past left

instance (past : Id → Finset Id) (known : Finset Id) (order : List Id) :
    Decidable (Arranges past known order) :=
  decidable_of_iff (order.Nodup ∧ order.toFinset = known ∧
      order.Pairwise fun left right => right ∉ past left)
    ⟨fun ⟨hnodup, hknown, hcausal⟩ => ⟨hnodup, hknown, hcausal⟩,
      fun ⟨hnodup, hknown, hcausal⟩ => ⟨hnodup, hknown, hcausal⟩⟩

/-- The events hold the past of each of them. -/
def Closed (past : Id → Finset Id) (known : Finset Id) : Prop :=
  ∀ id ∈ known, past id ⊆ known

instance (past : Id → Finset Id) (known : Finset Id) : Decidable (Closed past known) :=
  inferInstanceAs (Decidable (∀ id ∈ known, past id ⊆ known))

/-- Of any two of the events that pass the test, one is in the past of the other. -/
def Chain (past : Id → Finset Id) (known : Finset Id) (test : Id → Bool) : Prop :=
  ∀ left ∈ known, ∀ right ∈ known, test left = true → test right = true → left ≠ right →
    left ∈ past right ∨ right ∈ past left

namespace Arranges

variable {past : Id → Finset Id} {known : Finset Id} {order other : List Id}

theorem mem_iff (horder : Arranges past known order) {id : Id} : id ∈ order ↔ id ∈ known := by
  rw [← horder.known, List.mem_toFinset]

/-- What stands behind an event is not in its past. -/
theorem notMem_past {earlier later : List Id} {id : Id}
    (horder : Arranges past known (earlier ++ id :: later)) : ∀ after ∈ later, after ∉ past id :=
  (List.pairwise_cons.mp (List.pairwise_append.mp horder.causal).2.1).1

/-- The known past of an event stands in front of it. -/
theorem mem_earlier {earlier later : List Id} {id before : Id}
    (horder : Arranges past known (earlier ++ id :: later)) (hbefore : before ∈ past id)
    (hknown : before ∈ known) (hself : id ∉ past id) : before ∈ earlier := by
  have hmem := horder.mem_iff.mpr hknown
  rcases List.mem_append.mp hmem with hearlier | hlater
  · exact hearlier
  · rcases List.mem_cons.mp hlater with rfl | hlater
    · exact absurd hbefore hself
    · exact absurd hbefore (horder.notMem_past before hlater)

/-- Two arrangements of the same events hold a chain in the same order. -/
theorem filter_eq (horder : Arranges past known order) (hother : Arranges past known other)
    {test : Id → Bool} (hchain : Chain past known test) :
    order.filter test = other.filter test := by
  have hperm : (order.filter test).Perm (other.filter test) := by
    apply List.Perm.filter
    apply (List.perm_ext_iff_of_nodup horder.nodup hother.nodup).mpr
    intro id
    rw [horder.mem_iff, hother.mem_iff]
  have hpast : ∀ {list : List Id}, Arranges past known list →
      (list.filter test).Pairwise fun left right => right ∉ past left := fun hlist =>
    hlist.causal.sublist List.filter_sublist
  refine hperm.eq_of_pairwise ?_ (hpast horder) (hpast hother)
  intro left right hleft hright hforward hbackward
  obtain ⟨hleft, htestLeft⟩ := List.mem_filter.mp hleft
  obtain ⟨hright, htestRight⟩ := List.mem_filter.mp hright
  by_contra hne
  rcases hchain left (horder.mem_iff.mp hleft) right (hother.mem_iff.mp hright) htestLeft
    htestRight hne with hmem | hmem
  · exact hbackward hmem
  · exact hforward hmem

/-- An event that is in the past of all others of a kind is the first of them. -/
theorem exists_split (horder : Arranges past known order) {first : Id} (hfirst : first ∈ known)
    {kind : Id → Prop}
    (hbefore : ∀ id ∈ known, kind id → id ≠ first → first ∈ past id) :
    ∃ earlier later, order = earlier ++ first :: later ∧ ∀ id ∈ earlier, ¬kind id := by
  obtain ⟨earlier, later, rfl⟩ := List.append_of_mem (horder.mem_iff.mpr hfirst)
  refine ⟨earlier, later, rfl, fun id hid hkind => ?_⟩
  have hknown : id ∈ known := horder.mem_iff.mp (List.mem_append_left _ hid)
  have hcross := (List.pairwise_append.mp horder.causal).2.2 id hid first (by simp)
  have hne : id ≠ first := by
    rintro rfl
    have hnodup := (List.nodup_append.mp horder.nodup).2.2
    exact hnodup id hid id (by simp) rfl
  exact hcross (hbefore id hknown hkind hne)

/-- Behind an event that comes before a chain, two arrangements hold it in the same order. -/
theorem filter_eq_of_split {first : Id} {earlier later earlier' later' : List Id}
    (horder : Arranges past known (earlier ++ first :: later))
    (hother : Arranges past known (earlier' ++ first :: later')) {test : Id → Bool}
    (hearlier : ∀ id ∈ earlier, test id = false) (hearlier' : ∀ id ∈ earlier', test id = false)
    (hchain : Chain past known test) : later.filter test = later'.filter test := by
  have hsame := horder.filter_eq hother hchain
  have hskip : ∀ {list : List Id}, (∀ id ∈ list, test id = false) → list.filter test = [] :=
    fun hlist => List.filter_eq_nil_iff.mpr fun id hid => by simp [hlist id hid]
  rw [List.filter_append, List.filter_append, hskip hearlier, hskip hearlier', List.nil_append,
    List.nil_append, List.filter_cons, List.filter_cons] at hsame
  split at hsame
  · exact (List.cons.inj hsame).2
  · exact hsame

end Arranges

end RadicleArtifact.Library
