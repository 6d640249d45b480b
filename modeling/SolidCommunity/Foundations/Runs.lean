import Mathlib.Data.Nat.Notation
import Mathlib.Logic.Basic
import Mathlib.Tactic.TypeStar
import Mathlib.Tactic.Basic
import Mathlib.Tactic.ByContra

/-!
# Runs of a Labelled Step Function

A system is a partial step function on an explicit state: a label names what happens next, and the
step is undefined when that cannot happen.  Every invariant of a run is obtained from one statement
about a single step, either for all steps or for the steps that meet a condition on the state
before them.
-/

namespace SolidCommunity.Foundations.Runs

variable {State Label : Type*} (step : State → Label → Option State)

/-- Execute the labels in order; the run is undefined as soon as one step is. -/
def run : State → List Label → Option State
  | state, [] => some state
  | state, label :: labels => (step state label).bind fun next ↦ run next labels

/-- Every step of the run is taken in a state that satisfies `condition`. -/
def EveryStep (condition : State → Label → Prop) : State → List Label → Prop
  | _, [] => True
  | state, label :: labels =>
    condition state label ∧ ∀ next, step state label = some next → EveryStep condition next labels

instance decidableEveryStep (condition : State → Label → Prop)
    [∀ state label, Decidable (condition state label)] :
    ∀ state labels, Decidable (EveryStep step condition state labels)
  | _, [] => inferInstanceAs (Decidable True)
  | state, label :: labels =>
    have := fun next ↦ decidableEveryStep condition next labels
    inferInstanceAs (Decidable (condition state label ∧
      ∀ next ∈ step state label, EveryStep step condition next labels))

/-- Every state of the run satisfies `property`. -/
def Always (property : State → Prop) : State → List Label → Prop
  | state, [] => property state
  | state, label :: labels =>
    property state ∧ ∀ next, step state label = some next → Always property next labels

/-- The states that some run from `initial` ends in. -/
def Reachable (initial state : State) : Prop := ∃ labels, run step initial labels = some state

@[simp]
theorem run_nil (state : State) : run step state [] = some state := rfl

theorem run_cons_eq_some {state final : State} {label : Label} {labels : List Label} :
    run step state (label :: labels) = some final ↔
      ∃ next, step state label = some next ∧ run step next labels = some final := by
  simp [run, Option.bind_eq_some_iff]

/-- A run of a concatenation passes through an intermediate state. -/
theorem run_append_eq_some {state final : State} {first second : List Label} :
    run step state (first ++ second) = some final ↔
      ∃ middle, run step state first = some middle ∧ run step middle second = some final := by
  induction first generalizing state with
  | nil => simp
  | cons label labels ih =>
    simp only [List.cons_append, run_cons_eq_some, ih]
    constructor
    · rintro ⟨next, hstep, middle, hfirst, hsecond⟩
      exact ⟨middle, ⟨next, hstep, hfirst⟩, hsecond⟩
    · rintro ⟨middle, ⟨next, hstep, hfirst⟩, hsecond⟩
      exact ⟨next, hstep, middle, hfirst, hsecond⟩

/-- The condition on a concatenation is the condition on both parts. -/
theorem EveryStep.of_append {condition : State → Label → Prop} {state middle : State}
    {first second : List Label} (hall : EveryStep step condition state (first ++ second))
    (hfirst : run step state first = some middle) :
    EveryStep step condition state first ∧ EveryStep step condition middle second := by
  induction first generalizing state with
  | nil =>
    obtain rfl : state = middle := by simpa using hfirst
    exact ⟨trivial, hall⟩
  | cons label labels ih =>
    obtain ⟨next, hstep, hrun⟩ := (run_cons_eq_some step).mp hfirst
    refine ⟨⟨hall.1, fun other hother ↦ ?_⟩, (ih (hall.2 next hstep) hrun).2⟩
    obtain rfl : next = other := by simpa [hstep] using hother
    exact (ih (hall.2 next hstep) hrun).1

theorem EveryStep.imp {condition weaker : State → Label → Prop}
    (himp : ∀ state label, condition state label → weaker state label) {state : State}
    {labels : List Label} (h : EveryStep step condition state labels) :
    EveryStep step weaker state labels := by
  induction labels generalizing state with
  | nil => trivial
  | cons label labels ih =>
    exact ⟨himp state label h.1, fun next hnext ↦ ih (h.2 next hnext)⟩

/-- A property of the labels alone can be joined to the condition. -/
theorem EveryStep.and_forall_mem {condition : State → Label → Prop} {property : Label → Prop}
    {state : State} {labels : List Label} (hall : EveryStep step condition state labels)
    (hlabels : ∀ label ∈ labels, property label) :
    EveryStep step (fun state label ↦ condition state label ∧ property label) state labels := by
  induction labels generalizing state with
  | nil => trivial
  | cons label labels ih =>
    exact ⟨⟨hall.1, hlabels label List.mem_cons_self⟩, fun next hnext ↦
      ih (hall.2 next hnext) fun other hother ↦ hlabels other (List.mem_cons_of_mem label hother)⟩

/-- Where every label can follow every state, a condition on labels alone is one on the list. -/
theorem everyStep_iff_forall_mem (htotal : ∀ state label, (step state label).isSome = true)
    {condition : Label → Prop} {state : State} {labels : List Label} :
    EveryStep step (fun _ label ↦ condition label) state labels ↔
      ∀ label ∈ labels, condition label := by
  induction labels generalizing state with
  | nil => simp [EveryStep]
  | cons label labels ih =>
    obtain ⟨next, hnext⟩ := Option.isSome_iff_exists.mp (htotal state label)
    rw [EveryStep, List.forall_mem_cons]
    apply and_congr_right
    intro _
    constructor
    · exact fun h ↦ ih.mp (h next hnext)
    · exact fun h other _ ↦ ih.mpr h

theorem Always.head {property : State → Prop} {state : State} {labels : List Label}
    (h : Always step property state labels) : property state := by
  cases labels with
  | nil => exact h
  | cons label labels => exact h.1

/-- An invariant of the steps that meet the condition is an invariant of the runs that do. -/
theorem invariant_of_everyStep (condition : State → Label → Prop) (invariant : State → Prop)
    (hpreserved : ∀ state label next, invariant state → condition state label →
      step state label = some next → invariant next)
    {state final : State} {labels : List Label} (hstart : invariant state)
    (hcondition : EveryStep step condition state labels)
    (hrun : run step state labels = some final) : invariant final := by
  induction labels generalizing state with
  | nil =>
    obtain rfl : state = final := by simpa using hrun
    exact hstart
  | cons label labels ih =>
    obtain ⟨next, hstep, hrest⟩ := (run_cons_eq_some step).mp hrun
    exact ih (hpreserved state label next hstart hcondition.1 hstep) (hcondition.2 next hstep) hrest

/-- If single steps keep the invariant exactly under the condition, and a step that breaks the
condition breaks the property at once, the property holds throughout exactly the runs whose steps
all meet the condition. -/
theorem always_iff_everyStep {condition : State → Label → Prop} {invariant property : State → Prop}
    (hproperty : ∀ state, invariant state → property state)
    (hpreserved : ∀ state label next, invariant state → condition state label →
      step state label = some next → invariant next)
    (hdefined : ∀ state label, invariant state → ¬ condition state label →
      ∃ next, step state label = some next ∧ ¬ property next)
    {state : State} (hstart : invariant state) (labels : List Label) :
    Always step property state labels ↔ EveryStep step condition state labels := by
  induction labels generalizing state with
  | nil => exact iff_of_true (hproperty state hstart) trivial
  | cons label labels ih =>
    constructor
    · rintro ⟨-, hnext⟩
      have hcondition : condition state label := by
        by_contra hbroken
        obtain ⟨next, hstep, hnot⟩ := hdefined state label hstart hbroken
        exact hnot ((hnext next hstep).head step)
      exact ⟨hcondition, fun next hstep ↦
        (ih (hpreserved state label next hstart hcondition hstep)).mp (hnext next hstep)⟩
    · rintro ⟨hcondition, hnext⟩
      exact ⟨hproperty state hstart, fun next hstep ↦
        (ih (hpreserved state label next hstart hcondition hstep)).mpr (hnext next hstep)⟩

/-- On a run that is defined, a step only has to break the property if it is taken. -/
theorem always_iff_everyStep_of_run {condition : State → Label → Prop}
    {invariant property : State → Prop} (hproperty : ∀ state, invariant state → property state)
    (hpreserved : ∀ state label next, invariant state → condition state label →
      step state label = some next → invariant next)
    (hbroken : ∀ state label next, invariant state → ¬ condition state label →
      step state label = some next → ¬ property next)
    {state final : State} {labels : List Label} (hstart : invariant state)
    (hrun : run step state labels = some final) :
    Always step property state labels ↔ EveryStep step condition state labels := by
  induction labels generalizing state with
  | nil => exact iff_of_true (hproperty state hstart) trivial
  | cons label labels ih =>
    obtain ⟨next, hstep, hrest⟩ := (run_cons_eq_some step).mp hrun
    have hunique (other : State) (hother : step state label = some other) : other = next :=
      Option.some_inj.mp (hother.symm.trans hstep)
    constructor
    · rintro ⟨-, hnext⟩
      have hcondition : condition state label := by
        by_contra hnot
        exact hbroken state label next hstart hnot hstep ((hnext next hstep).head step)
      have hinvariant := hpreserved state label next hstart hcondition hstep
      refine ⟨hcondition, fun other hother ↦ ?_⟩
      rw [hunique other hother]
      exact (ih hinvariant hrest).mp (hnext next hstep)
    · rintro ⟨hcondition, hnext⟩
      have hinvariant := hpreserved state label next hstart hcondition hstep
      refine ⟨hproperty state hstart, fun other hother ↦ ?_⟩
      rw [hunique other hother]
      exact (ih hinvariant hrest).mpr (hnext next hstep)

/-- Two conditions that agree wherever the invariant holds agree on a run, if each step that meets
them keeps the invariant. -/
theorem everyStep_iff_everyStep_of_run {condition property : State → Label → Prop}
    {invariant : State → Prop}
    (hiff : ∀ state label next, invariant state → step state label = some next →
      (property state label ↔ condition state label))
    (hpreserved : ∀ state label next, invariant state → condition state label →
      step state label = some next → invariant next)
    {state final : State} {labels : List Label} (hstart : invariant state)
    (hrun : run step state labels = some final) :
    EveryStep step property state labels ↔ EveryStep step condition state labels := by
  induction labels generalizing state with
  | nil => rfl
  | cons label labels ih =>
    obtain ⟨next, hstep, hrest⟩ := (run_cons_eq_some step).mp hrun
    unfold EveryStep
    rw [hiff state label next hstart hstep]
    apply and_congr_right
    intro hcondition
    apply forall₂_congr
    intro other hother
    obtain rfl : next = other := Option.some_inj.mp (hstep.symm.trans hother)
    exact ih (hpreserved state label next hstart hcondition hstep) hrest

theorem everyStep_true (state : State) (labels : List Label) :
    EveryStep step (fun _ _ ↦ True) state labels := by
  induction labels generalizing state with
  | nil => trivial
  | cons label labels ih => exact ⟨trivial, fun next _ ↦ ih next⟩

/-- An invariant of every step is an invariant of every run. -/
theorem invariant_of_run (invariant : State → Prop)
    (hpreserved : ∀ state label next, invariant state → step state label = some next →
      invariant next)
    {state final : State} {labels : List Label} (hstart : invariant state)
    (hrun : run step state labels = some final) : invariant final :=
  invariant_of_everyStep step (fun _ _ ↦ True) invariant
    (fun state label next hinv _ ↦ hpreserved state label next hinv) hstart
    (everyStep_true step state labels) hrun

/-- An invariant that relates the state to the labels so far. -/
theorem invariant_of_history (invariant : List Label → State → Prop)
    (hpreserved : ∀ past state label next, invariant past state → step state label = some next →
      invariant (past ++ [label]) next)
    {state final : State} {past labels : List Label} (hstart : invariant past state)
    (hrun : run step state labels = some final) : invariant (past ++ labels) final := by
  induction labels generalizing past state with
  | nil =>
    obtain rfl : state = final := by simpa using hrun
    rwa [List.append_nil]
  | cons label labels ih =>
    obtain ⟨next, hstep, hrest⟩ := (run_cons_eq_some step).mp hrun
    rw [List.append_cons]
    exact ih (hpreserved past state label next hstart hstep) hrest

theorem invariant_of_reachable (invariant : State → Prop)
    (hpreserved : ∀ state label next, invariant state → step state label = some next →
      invariant next)
    {initial state : State} (hstart : invariant initial)
    (hreachable : Reachable step initial state) : invariant state := by
  obtain ⟨labels, hrun⟩ := hreachable
  exact invariant_of_run step invariant hpreserved hstart hrun

/-! ## Walks

A partial function on states is followed for as long as it is defined.
-/

section Walks

variable (next : State → Option State)

/-- The state after so many steps, if all of them are defined. -/
def walk : ℕ → State → Option State
  | 0, state => some state
  | steps + 1, state => (next state).bind (walk steps)

/-- A walk whose steps decrease a measure ends within as many steps. -/
theorem exists_walk_end {measure : State → ℕ}
    (hdecreases : ∀ state after, next state = some after → measure after < measure state)
    (state : State) :
    ∃ steps ≤ measure state, ∃ last, walk next steps state = some last ∧ next last = none := by
  induction hmeasure : measure state using Nat.strongRecOn generalizing state with
  | ind bound ih =>
    cases hnext : next state with
    | none => exact ⟨0, Nat.zero_le bound, state, rfl, hnext⟩
    | some after =>
      have hless : measure after < bound := hmeasure ▸ hdecreases state after hnext
      obtain ⟨steps, hsteps, last, hwalk, hlast⟩ := ih _ hless after rfl
      refine ⟨steps + 1, Nat.lt_of_le_of_lt hsteps hless, last, ?_, hlast⟩
      rw [walk, hnext, Option.bind_some, hwalk]

/-- What every step produces holds of all states on the way. -/
theorem property_of_walk {property : State → Prop}
    (hproduced : ∀ state after, next state = some after → property after) {steps : ℕ}
    {state after : State} (h : walk next (steps + 1) state = some after) : property after := by
  induction steps generalizing state with
  | zero =>
    obtain ⟨other, hother, hafter⟩ := Option.bind_eq_some_iff.mp h
    obtain rfl := Option.some_inj.mp hafter
    exact hproduced state other hother
  | succ steps ih =>
    obtain ⟨other, -, hrest⟩ := Option.bind_eq_some_iff.mp h
    exact ih hrest

end Walks

/-! ## Responses

A component that answers every request is a total step function with an output.
-/

section Responses

variable {State Other Request Response : Type*} (respond : State → Request → State × Response)
  (other : Other → Request → Other × Response)

/-- The state after the requests. -/
def after (state : State) (requests : List Request) : State :=
  requests.foldl (fun state request ↦ (respond state request).1) state

/-- The answers to the requests. -/
def responses : State → List Request → List Response
  | _, [] => []
  | state, request :: requests =>
    (respond state request).2 :: responses (respond state request).1 requests

/-- What a relation between two components needs to make them answer alike. -/
structure Simulation (relation : State → Other → Prop) : Prop where
  response : ∀ state state' request, relation state state' →
    (respond state request).2 = (other state' request).2
  next : ∀ state state' request, relation state state' →
    relation (respond state request).1 (other state' request).1

variable {respond other} {relation : State → Other → Prop} {state : State} {state' : Other}

theorem Simulation.after (h : Simulation respond other relation) (hstart : relation state state')
    (requests : List Request) :
    relation (after respond state requests) (after other state' requests) := by
  induction requests generalizing state state' with
  | nil => exact hstart
  | cons request requests ih => exact ih (h.next state state' request hstart)

theorem Simulation.responses_eq (h : Simulation respond other relation)
    (hstart : relation state state') (requests : List Request) :
    responses respond state requests = responses other state' requests := by
  induction requests generalizing state state' with
  | nil => rfl
  | cons request requests ih =>
    rw [responses, responses, h.response state state' request hstart,
      ih (h.next state state' request hstart)]

/-- What every request keeps is kept by all of them. -/
theorem after_invariant (invariant : State → Prop)
    (hpreserved : ∀ state request, invariant state → invariant (respond state request).1)
    (hstart : invariant state) (requests : List Request) :
    invariant (after respond state requests) := by
  induction requests generalizing state with
  | nil => exact hstart
  | cons request requests ih => exact ih (hpreserved state request hstart)

end Responses

end SolidCommunity.Foundations.Runs
