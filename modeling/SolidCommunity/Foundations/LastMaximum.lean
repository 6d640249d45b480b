import Mathlib.Data.List.MinMax

/-!
# The Last Maximum of a List

The selection of an element with the largest key, the last one if there are several.  Elements other
than the selected one can be left out without changing the selection.
-/

namespace SolidCommunity.Foundations.LastMaximum

variable {α β : Type*} [LinearOrder β] {key : α → β} {list : List α} {best : α}

/-- The first maximum is selected from any part of the list that it is in. -/
theorem argmax_filter {keep : α → Bool} (h : list.argmax key = some best) (hkeep : keep best = true) :
    (list.filter keep).argmax key = some best := by
  induction list with
  | nil => simp at h
  | cons first rest ih =>
    rw [List.argmax_cons] at h
    cases hrest : rest.argmax key with
    | none =>
      rw [hrest] at h
      obtain rfl := Option.some_inj.mp h
      rw [List.argmax_eq_none.mp hrest, List.filter_cons_of_pos hkeep]
      rfl
    | some later =>
      simp only [hrest] at h
      split at h
      · next hlt =>
        obtain rfl := Option.some_inj.mp h
        have hfiltered := ih hrest
        cases hfirst : keep first with
        | true => rw [List.filter_cons_of_pos hfirst, List.argmax_cons, hfiltered]; simp [hlt]
        | false =>
          rw [List.filter_cons_of_neg (by simp [hfirst])]
          exact hfiltered
      · next hge =>
        obtain rfl := Option.some_inj.mp h
        rw [List.filter_cons_of_pos hkeep, List.argmax_cons]
        cases hfiltered : (rest.filter keep).argmax key with
        | none => rfl
        | some other =>
          have hother := List.mem_of_mem_filter (List.argmax_mem hfiltered)
          have hle : key other ≤ key later := List.le_of_mem_argmax hother hrest
          have hnot : ¬ key first < key other := fun hlt ↦ hge (lt_of_lt_of_le hlt hle)
          simp [hnot]

/-- `Iterator::max_by_key`, which returns the last element of several with the largest key. -/
def maxByKey (key : α → β) (list : List α) : Option α := list.reverse.argmax key

theorem mem_of_maxByKey (h : maxByKey key list = some best) : best ∈ list :=
  List.mem_reverse.mp (List.argmax_mem h)

theorem le_of_maxByKey (h : maxByKey key list = some best) {other : α} (hother : other ∈ list) :
    key other ≤ key best :=
  List.le_of_mem_argmax (List.mem_reverse.mpr hother) h

theorem maxByKey_eq_none_iff : maxByKey key list = none ↔ list = [] := by
  rw [maxByKey, List.argmax_eq_none, List.reverse_eq_nil_iff]

theorem maxByKey_filter {keep : α → Bool} (h : maxByKey key list = some best)
    (hkeep : keep best = true) : maxByKey key (list.filter keep) = some best := by
  rw [maxByKey, ← List.filter_reverse]
  exact argmax_filter h hkeep

theorem exists_maxByKey (h : list ≠ []) : ∃ best, maxByKey key list = some best :=
  Option.ne_none_iff_exists'.mp (mt maxByKey_eq_none_iff.mp h)

/-- The first element is selected where all keys are alike. -/
theorem argmax_of_const {common : β} (h : ∀ x ∈ list, key x = common) :
    list.argmax key = list.head? := by
  cases list with
  | nil => rfl
  | cons first rest =>
    rw [List.argmax_cons, List.head?_cons]
    cases hrest : rest.argmax key with
    | none => rfl
    | some later =>
      have hlater : later ∈ first :: rest := List.mem_cons_of_mem _ (List.argmax_mem hrest)
      have hnot : ¬ key first < key later := by
        rw [h first List.mem_cons_self, h later hlater]
        exact lt_irrefl common
      exact if_neg hnot

/-- Of those that a test on the keys keeps, the selected element is the last of its key. -/
theorem getLast_of_maxByKey (h : maxByKey key list = some best) {keep : α → Bool}
    (hkeep : keep best = true) (hkey : ∀ x, keep x = true → key x = key best) :
    (list.filter keep).getLast? = some best := by
  have hkept := maxByKey_filter h hkeep
  have hconst : ∀ x ∈ (list.filter keep).reverse, key x = key best := by
    intro x hx
    exact hkey x (List.mem_filter.mp (List.mem_reverse.mp hx)).2
  rwa [maxByKey, argmax_of_const hconst, List.head?_reverse] at hkept

end SolidCommunity.Foundations.LastMaximum
