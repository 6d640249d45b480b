import SolidCommunity.Foundations.FiniteMap

/-!
# Effects on the Entries of a Map

Many operations of a map treat every entry on its own: they keep it, they fill it with a fallback
if it is absent, or they assign it.  Two such operations commute when their effects on every entry
do, and none of them does more when it is repeated.
-/

namespace SolidCommunity.Foundations.EntryEffects

open FiniteMap

variable {Key Value Operation : Type*}

/-- What an operation does to one entry. -/
inductive Effect (Value : Type*) where
  | keep
  | ensure (fallback : Value)
  | assign (entry : Option Value)

namespace Effect

def act : Effect Value → Option Value → Option Value
  | keep, entry => entry
  | ensure fallback, entry => entry.or (some fallback)
  | assign entry, _ => entry

/-- Effects on one entry that need not come in a particular order: one keeps it, both fill it with
one fallback, or one fills what the other assigns. -/
def Agrees : Effect Value → Effect Value → Prop
  | keep, _ => True
  | _, keep => True
  | ensure first, ensure second => first = second
  | ensure _, assign entry => entry.isSome = true
  | assign entry, ensure _ => entry.isSome = true
  | assign _, assign _ => False

theorem agrees_keep (effect : Effect Value) : effect.Agrees keep := by
  cases effect <;> trivial

theorem Agrees.act_comm {first second : Effect Value} (h : Agrees first second)
    (entry : Option Value) : second.act (first.act entry) = first.act (second.act entry) := by
  cases first with
  | keep => rfl
  | assign assigned =>
    cases second with
    | keep => rfl
    | ensure =>
      obtain ⟨value, rfl⟩ := Option.isSome_iff_exists.mp h
      rfl
    | assign => exact h.elim
  | ensure fallback =>
    cases second with
    | keep => rfl
    | ensure other =>
      obtain rfl : fallback = other := h
      rfl
    | assign assigned =>
      obtain ⟨value, rfl⟩ := Option.isSome_iff_exists.mp h
      rfl

@[simp]
theorem act_act_self (effect : Effect Value) (entry : Option Value) :
    effect.act (effect.act entry) = effect.act entry := by
  cases effect with
  | keep => rfl
  | assign => rfl
  | ensure fallback => cases entry <;> rfl

end Effect

/-! ## Operations that treat every entry on its own -/

section Pointwise

variable [DecidableEq Key] (perform : HashMap Key Value → Operation → HashMap Key Value)
  (effect : Operation → Key → Effect Value)

/-- An operation has one effect on each entry, whatever else is stored. -/
def Pointwise : Prop :=
  ∀ map operation key,
    (perform map operation).lookup key = (effect operation key).act (map.lookup key)

variable {perform effect}

theorem Pointwise.comm (h : Pointwise perform effect) {first second : Operation}
    (hagrees : ∀ key, (effect first key).Agrees (effect second key)) (map : HashMap Key Value) :
    perform (perform map first) second = perform (perform map second) first := by
  apply Finmap.ext_lookup
  intro key
  rw [h, h, h, h]
  exact (hagrees key).act_comm (map.lookup key)

theorem Pointwise.perform_perform_self (h : Pointwise perform effect) (map : HashMap Key Value)
    (operation : Operation) : perform (perform map operation) operation = perform map operation := by
  apply Finmap.ext_lookup
  intro key
  rw [h, h, Effect.act_act_self]

end Pointwise

end SolidCommunity.Foundations.EntryEffects
