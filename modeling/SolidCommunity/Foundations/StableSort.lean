import Mathlib.Order.Lattice

/-!
# Stable Sorting

A stable sort by a comparison.  The comparison need not be an order of the whole type: it is enough
that it compares the elements of the list by a key, and then the sorted list is ascending in this
key and leaves elements with the same key in the order in which they were.
-/

namespace SolidCommunity.Foundations.StableSort

variable {α β : Type*}

/-- `slice::sort_by`; where the comparison is not an order, no particular order is relied on. -/
def sortBy (comparison : α → α → Ordering) (list : List α) : List α :=
  list.mergeSort fun first second ↦ (comparison first second).isLE

theorem perm_sortBy (comparison : α → α → Ordering) (list : List α) :
    (sortBy comparison list).Perm list :=
  List.mergeSort_perm _ _

theorem mem_sortBy {comparison : α → α → Ordering} {list : List α} {element : α} :
    element ∈ sortBy comparison list ↔ element ∈ list :=
  (perm_sortBy comparison list).mem_iff

section Keyed

variable [LinearOrder β] {comparison : α → α → Ordering} {key : α → β} {list : List α}

/-- The comparison orders the elements of the list by their keys. -/
def Compares (comparison : α → α → Ordering) (key : α → β) (list : List α) : Prop :=
  ∀ first ∈ list, ∀ second ∈ list,
    (comparison first second).isLE = decide (key first ≤ key second)

theorem sortBy_eq_mergeSort (h : Compares comparison key list) :
    sortBy comparison list = list.mergeSort fun first second ↦ key first ≤ key second := by
  have hmap := List.map_mergeSort (s := fun first second ↦ decide (key first ≤ key second))
    (f := id) h
  rwa [List.map_id, List.map_id] at hmap

theorem key_le_trans (first second third : α) (h : decide (key first ≤ key second) = true)
    (h' : decide (key second ≤ key third) = true) : decide (key first ≤ key third) = true :=
  decide_eq_true (le_trans (of_decide_eq_true h) (of_decide_eq_true h'))

theorem key_le_total (first second : α) :
    (decide (key first ≤ key second) || decide (key second ≤ key first)) = true := by
  simpa using le_total (key first) (key second)

/-- The keys ascend. -/
theorem pairwise_sortBy (h : Compares comparison key list) :
    (sortBy comparison list).Pairwise fun first second ↦ key first ≤ key second := by
  rw [sortBy_eq_mergeSort h]
  exact (List.pairwise_mergeSort key_le_trans key_le_total list).imp of_decide_eq_true

/-- Elements with the same key keep their order. -/
theorem filter_sortBy (h : Compares comparison key list) (value : β) :
    (sortBy comparison list).filter (key · = value) = list.filter (key · = value) := by
  have hties : (list.filter (key · = value)).Pairwise fun first second ↦
      decide (key first ≤ key second) = true := by
    apply List.pairwise_of_forall_mem_list
    intro first hfirst second hsecond
    have hfirst : key first = value := by simpa using (List.mem_filter.mp hfirst).2
    have hsecond : key second = value := by simpa using (List.mem_filter.mp hsecond).2
    rw [hfirst, hsecond]
    exact decide_eq_true le_rfl
  have hsublist : (list.filter (key · = value)).Sublist (sortBy comparison list) := by
    rw [sortBy_eq_mergeSort h]
    exact List.sublist_mergeSort key_le_trans key_le_total hties List.filter_sublist
  have hfiltered : (list.filter (key · = value)).Sublist
      ((sortBy comparison list).filter (key · = value)) := by
    simpa using hsublist.filter (key · = value)
  exact (hfiltered.eq_of_length ((perm_sortBy comparison list).filter _).length_eq.symm).symm

/-- The first element of the sorted list is the first one of the least key. -/
theorem head?_sortBy {first : α} (h : Compares comparison key list)
    (hfirst : (sortBy comparison list).head? = some first) :
    ∃ front back, list = front ++ first :: back ∧
      (∀ earlier ∈ front, key first < key earlier) ∧ ∀ later ∈ back, key first ≤ key later := by
  obtain ⟨rest, hsorted⟩ := List.head?_eq_some_iff.mp hfirst
  have hleast : ∀ other ∈ list, key first ≤ key other := by
    intro other hother
    have hmem : other ∈ first :: rest := by rwa [← hsorted, mem_sortBy]
    rcases List.mem_cons.mp hmem with rfl | hrest
    · exact le_rfl
    · have hpairwise := pairwise_sortBy h
      rw [hsorted] at hpairwise
      exact (List.pairwise_cons.mp hpairwise).1 other hrest
  -- What is left of the list with the least key begins with the first element.
  have hties : list.filter (key · = key first) =
      first :: rest.filter (key · = key first) := by
    rw [← filter_sortBy h, hsorted, List.filter_cons_of_pos (by simp)]
  obtain ⟨front, back, rfl, hfront, -, -⟩ := List.filter_eq_cons_iff.mp hties
  refine ⟨front, back, rfl, fun earlier hearlier ↦ ?_, fun later hlater ↦ ?_⟩
  · have hne : key earlier ≠ key first := by simpa using hfront earlier hearlier
    exact lt_of_le_of_ne (hleast earlier (List.mem_append_left _ hearlier)) hne.symm
  · exact hleast later (List.mem_append_right _ (List.mem_cons_of_mem _ hlater))

end Keyed

end SolidCommunity.Foundations.StableSort
