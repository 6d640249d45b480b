import Mathlib.Data.Option.Basic
import Mathlib.Tactic.TypeStar
import Mathlib.Tactic.Basic

/-!
# Leases

A ledger folds the events about one key into the value that they have granted under it.  A store
that removes what has expired keeps, under every key, the granted value, or nothing once that value
is dead.  Whoever looks for live values cannot tell such a store from the ledger.
-/

namespace SolidCommunity.Foundations.Leases

/-! ## Ledgers -/

section Ledger

variable {Key Event Value : Type*} [DecidableEq Key] (about : Event → Option Key)
  (record : Event → Option Value → Option Value)

/-- What the events about the key have granted. -/
def ledger (key : Key) (events : List Event) : Option Value :=
  (events.filter (about · = some key)).foldl (fun value event ↦ record event value) none

@[simp]
theorem ledger_nil (key : Key) : ledger about record key [] = none := rfl

theorem ledger_concat (key : Key) (events : List Event) (event : Event) :
    ledger about record key (events ++ [event]) =
      if about event = some key then record event (ledger about record key events)
      else ledger about record key events := by
  unfold ledger
  rw [List.filter_append, List.foldl_append]
  by_cases habout : about event = some key
  · simp [habout]
  · simp [habout]

end Ledger

/-! ## Kept values -/

section Kept

variable {Value : Type*} {dead later : Value → Prop} {live : Value → Bool}
  {stored granted : Option Value}

/-- The granted value is stored, or nothing is and the granted value is dead. -/
def Kept (dead : Value → Prop) (stored granted : Option Value) : Prop :=
  stored = granted ∨ (stored = none ∧ ∀ value ∈ granted, dead value)

theorem kept_self (dead : Value → Prop) (value : Option Value) : Kept dead value value := .inl rfl

/-- What is dead stays dead. -/
theorem Kept.imp (h : Kept dead stored granted) (himp : ∀ value, dead value → later value) :
    Kept later stored granted :=
  h.imp_right fun hgone ↦ ⟨hgone.1, fun value hvalue ↦ himp value (hgone.2 value hvalue)⟩

/-- A stored value is the granted one. -/
theorem Kept.eq_some {value : Value} (h : Kept dead stored granted) (hstored : stored = some value) :
    granted = some value := by
  rcases h with hsame | ⟨hnone, -⟩
  · rw [← hsame, hstored]
  · rw [hnone] at hstored
    simp at hstored

/-- Where nothing is stored, nothing is granted but dead values. -/
theorem Kept.dead_of_eq_none (h : Kept dead stored granted) (hstored : stored = none) :
    ∀ value ∈ granted, dead value := by
  rcases h with hsame | ⟨-, hdead⟩
  · rw [← hsame, hstored]
    simp
  · exact hdead

/-- Removing dead values. -/
theorem Kept.filter (h : Kept dead stored granted) (hdead : ∀ value, live value = false → dead value) :
    Kept dead (stored.filter live) granted := by
  cases stored with
  | none => exact h
  | some value =>
    obtain rfl := h.eq_some rfl
    rw [Option.filter_some]
    split
    · exact kept_self dead _
    · next hlive =>
      have hvalue : dead value := hdead value (Bool.not_eq_true _ ▸ hlive)
      exact .inr ⟨rfl, fun _ hother ↦ Option.some_inj.mp hother ▸ hvalue⟩

/-- The live values are the granted ones that are live. -/
theorem Kept.filter_eq (h : Kept dead stored granted)
    (hdead : ∀ value, dead value → live value = false) :
    stored.filter live = granted.filter live := by
  rcases h with hsame | ⟨hnone, hgone⟩
  · rw [hsame]
  · cases granted with
    | none => rw [hnone]
    | some value => rw [hnone, Option.filter_some, hdead value (hgone value rfl)]; rfl

/-- A value that is looked for while it may be dying: a live one that is found is granted, and one
that is not found is dead by the end. -/
theorem Kept.found_or_dead (h : Kept dead stored granted)
    (hdead : ∀ value, live value = false → dead value) :
    (∃ value ∈ stored.filter live, granted = some value ∧ live value = true) ∨
      (stored.filter live = none ∧ ∀ value ∈ granted, dead value) := by
  cases hfound : stored.filter live with
  | some value =>
    obtain ⟨hstored, hlive⟩ := Option.filter_eq_some_iff.mp hfound
    exact .inl ⟨value, rfl, h.eq_some hstored, hlive⟩
  | none => exact .inr ⟨rfl, (hfound ▸ h.filter hdead).dead_of_eq_none rfl⟩

end Kept

end SolidCommunity.Foundations.Leases
