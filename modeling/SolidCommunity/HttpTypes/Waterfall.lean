import SolidCommunity.ServerCore.RequestPipeline

/-!
# The Waterfall Handler

A waterfall is to try its handlers in order until one does not decline the operation.  An operation
cannot be copied, so the loop hands it to the first handler and returns whatever that answers; this
is what a waterfall is to do exactly when the first handler decides, or when none of them would.
-/

namespace SolidCommunity.HttpTypes

open Foundations.Text ServerCore.RequestPipeline

variable {Operation Response : Type*}

/-- `OperationHttpHandler`: what a handler answers to an operation. -/
abbrev OperationHttpHandler (Operation Response : Type*) := Operation → Except SolidError Response

/-- The answers that the waterfall received, and its own. -/
structure Handled (Response : Type*) where
  received : List (Except SolidError Response)
  result : Except SolidError Response

structure WaterfallHandler (Operation Response : Type*) where
  handlers : List (OperationHttpHandler Operation Response)

/-- The error that the loop starts with. -/
def noHandler : SolidError := .methodNotAllowed "No handler accepted the operation".toList

/-- The loop over the handlers, which returns in its first round. -/
def WaterfallHandler.handleOperation (waterfall : WaterfallHandler Operation Response)
    (operation : Operation) : Handled Response :=
  match waterfall.handlers with
  | [] => ⟨[], .error noHandler⟩
  | handler :: _ => ⟨[handler operation], handler operation⟩

/-! ## Falling through -/

/-- A handler declines an operation with a method-not-allowed error. -/
def Declines : Except SolidError Response → Bool
  | .error (.methodNotAllowed _) => true
  | _ => false

/-- The answer is that of the first handler that does not decline, and the ones before it were
received; or it declines, and so does every handler. -/
def FallsThrough (handlers : List (OperationHttpHandler Operation Response)) (operation : Operation)
    (handled : Handled Response) : Prop :=
  (∃ before handler rest, handlers = before ++ handler :: rest ∧
    (∀ other ∈ before, Declines (other operation) = true) ∧
    Declines (handler operation) = false ∧
    handled = ⟨before.map (· operation) ++ [handler operation], handler operation⟩) ∨
  ((∀ handler ∈ handlers, Declines (handler operation) = true) ∧ Declines handled.result = true)

/-- The waterfall falls through its handlers exactly when the first of them does not decline, or all
of them do. -/
theorem fallsThrough_handleOperation_iff (waterfall : WaterfallHandler Operation Response)
    (operation : Operation) :
    FallsThrough waterfall.handlers operation (waterfall.handleOperation operation) ↔
      (∃ handler ∈ waterfall.handlers.head?, Declines (handler operation) = false) ∨
        ∀ handler ∈ waterfall.handlers, Declines (handler operation) = true := by
  obtain ⟨handlers⟩ := waterfall
  cases handlers with
  | nil => exact iff_of_true (.inr ⟨by simp, rfl⟩) (.inr (by simp))
  | cons first rest =>
    constructor
    · rintro (⟨before, handler, after, hsplit, hbefore, hhandler, hhandled⟩ | ⟨hall, -⟩)
      · left
        have hanswer : first operation = handler operation := congrArg Handled.result hhandled
        exact ⟨first, rfl, hanswer ▸ hhandler⟩
      · exact .inr hall
    · rintro (⟨handler, hhead, hhandler⟩ | hall)
      · obtain rfl : first = handler := Option.some_inj.mp hhead
        exact .inl ⟨[], first, rest, rfl, by simp, hhandler, rfl⟩
      · exact .inr ⟨hall, hall first List.mem_cons_self⟩

/-- The second of two handlers accepts what the first declines. -/
theorem not_fallsThrough_handleOperation_second :
    ∃ waterfall : WaterfallHandler ℕ ℕ,
      waterfall.handlers.map (· 3) = [.error (.methodNotAllowed []), .ok 3] ∧
      ¬ FallsThrough waterfall.handlers 3 (waterfall.handleOperation 3) := by
  refine ⟨⟨[fun _ ↦ .error (.methodNotAllowed []), fun operation ↦ .ok operation]⟩, rfl, ?_⟩
  rintro (⟨before, handler, after, -, -, hhandler, hhandled⟩ | ⟨hall, -⟩)
  · have hanswer : .error (.methodNotAllowed []) = handler 3 := congrArg Handled.result hhandled
    rw [← hanswer] at hhandler
    exact absurd hhandler (by decide)
  · exact absurd (hall (fun operation ↦ .ok operation) (by simp)) (by decide)

end SolidCommunity.HttpTypes
