import Mathlib.Data.List.Perm.Basic
import SolidCommunity.Foundations.Runs

/-!
# Transcripts

The transcript of a run pairs every request with its answer.  Requests that never change the state
can be dropped from a run, requests that commute can be served in either order, and a repeated
request can be dropped when its repetition changes nothing; the transcripts of the remaining
requests do not tell.  Two runs from states that no request of the run tells apart have one
transcript.
-/

namespace SolidCommunity.Foundations.Runs

variable {State Request Response : Type*}
  (respond : State → Request → State × Response)

/-- The requests with their answers. -/
def transcript : State → List Request → List (Request × Response)
  | _, [] => []
  | state, request :: requests =>
    (request, (respond state request).2) :: transcript (respond state request).1 requests

theorem after_append (state : State) (first second : List Request) :
    after respond state (first ++ second) = after respond (after respond state first) second :=
  List.foldl_append

theorem transcript_append (state : State) (first second : List Request) :
    transcript respond state (first ++ second) =
      transcript respond state first ++ transcript respond (after respond state first) second := by
  induction first generalizing state with
  | nil => rfl
  | cons request first ih =>
    rw [List.cons_append, transcript, transcript, ih, List.cons_append]
    rfl

theorem map_fst_transcript (state : State) (requests : List Request) :
    (transcript respond state requests).map Prod.fst = requests := by
  induction requests generalizing state with
  | nil => rfl
  | cons request requests ih => rw [transcript, List.map_cons, ih]

/-- What is true of every answer is true of the answers of a run. -/
theorem forall_mem_transcript (property : Request → Response → Prop)
    (h : ∀ state request, property request (respond state request).2) (state : State)
    (requests : List Request) :
    ∀ pair ∈ transcript respond state requests, property pair.1 pair.2 := by
  induction requests generalizing state with
  | nil => simp [transcript]
  | cons request requests ih =>
    rw [transcript, List.forall_mem_cons]
    exact ⟨h state request, ih _⟩

/-- Components that agree on the requests of a run. -/
theorem after_congr {respond other : State → Request → State × Response} {requests : List Request}
    (h : ∀ request ∈ requests, ∀ state, respond state request = other state request)
    (state : State) : after respond state requests = after other state requests := by
  induction requests generalizing state with
  | nil => rfl
  | cons request requests ih =>
    calc after respond state (request :: requests)
        = after other (respond state request).1 requests :=
          ih (fun later hlater ↦ h later (List.mem_cons_of_mem request hlater)) _
      _ = after other state (request :: requests) := by
        rw [h request List.mem_cons_self state]
        rfl

theorem transcript_congr {respond other : State → Request → State × Response} {requests : List Request}
    (h : ∀ request ∈ requests, ∀ state, respond state request = other state request)
    (state : State) : transcript respond state requests = transcript other state requests := by
  induction requests generalizing state with
  | nil => rfl
  | cons request requests ih =>
    rw [transcript, transcript, h request List.mem_cons_self,
      ih fun later hlater ↦ h later (List.mem_cons_of_mem request hlater)]

/-- Requests that no state tells apart can be exchanged for each other one by one. -/
theorem after_and_responses_of_forall₂ {alike : Request → Request → Prop}
    (h : ∀ request other, alike request other → ∀ state, respond state request = respond state other)
    {requests others : List Request} (halike : List.Forall₂ alike requests others) (state : State) :
    after respond state requests = after respond state others ∧
      responses respond state requests = responses respond state others := by
  induction halike generalizing state with
  | nil => exact ⟨rfl, rfl⟩
  | @cons request other requests others hsame _ ih =>
    have hserved := h request other hsame state
    obtain ⟨hafter, hresponses⟩ := ih (respond state other).1
    constructor
    · calc after respond state (request :: requests)
          = after respond (respond state other).1 requests := by
            rw [← hserved]
            rfl
        _ = after respond state (other :: others) := hafter
    · rw [responses, responses, hserved, hresponses]

/-! ## Requests that leave the state alone -/

/-- Whichever requests that leave the state alone are dropped, each by its position in the run, the
run ends in the same state. -/
theorem after_filter_zipIdx {keep : Request × ℕ → Bool}
    (hinert : ∀ state request index, keep (request, index) = false →
      (respond state request).1 = state)
    (state : State) (requests : List Request) (start : ℕ) :
    after respond state (((requests.zipIdx start).filter keep).map Prod.fst) =
      after respond state requests := by
  induction requests generalizing state start with
  | nil => rfl
  | cons request requests ih =>
    rw [List.zipIdx_cons, List.filter_cons]
    cases hkeep : keep (request, start) with
    | true => exact ih (respond state request).1 (start + 1)
    | false =>
      calc after respond state (((requests.zipIdx (start + 1)).filter keep).map Prod.fst)
          = after respond state requests := ih state (start + 1)
        _ = after respond (respond state request).1 requests := by
          rw [hinert state request start hkeep]

/-- The requests that are kept get the answers that they get at their positions in the whole run. -/
theorem transcript_filter_zipIdx {keep : Request × ℕ → Bool}
    (hinert : ∀ state request index, keep (request, index) = false →
      (respond state request).1 = state)
    (state : State) (requests : List Request) (start : ℕ) :
    transcript respond state (((requests.zipIdx start).filter keep).map Prod.fst) =
      (((transcript respond state requests).zipIdx start).filter fun answered ↦
        keep (answered.1.1, answered.2)).map Prod.fst := by
  induction requests generalizing state start with
  | nil => rfl
  | cons request requests ih =>
    rw [List.zipIdx_cons, List.filter_cons, transcript, List.zipIdx_cons, List.filter_cons]
    cases hkeep : keep (request, start) with
    | true => rw [if_pos rfl, if_pos rfl, List.map_cons, List.map_cons, transcript, ih]
    | false =>
      rw [if_neg Bool.false_ne_true, if_neg Bool.false_ne_true, ← ih,
        hinert state request start hkeep]

/-- Without the requests that never change the state, the run ends in the same state and gives the
remaining requests the same answers. -/
theorem after_filter {keep : Request → Bool}
    (hinert : ∀ state request, keep request = false → (respond state request).1 = state)
    (state : State) (requests : List Request) :
    after respond state (requests.filter keep) = after respond state requests := by
  have hkept : requests.filter keep = (requests.zipIdx.filter (keep ·.1)).map Prod.fst := by
    conv_lhs => rw [← List.zipIdx_map_fst 0 requests, List.filter_map]
    rfl
  rw [hkept]
  exact @after_filter_zipIdx _ _ _ respond (keep ·.1) (fun state request _ ↦ hinert state request)
    state requests 0

theorem transcript_filter {keep : Request → Bool}
    (hinert : ∀ state request, keep request = false → (respond state request).1 = state)
    (state : State) (requests : List Request) :
    transcript respond state (requests.filter keep) =
      (transcript respond state requests).filter (keep ·.1) := by
  conv_lhs => rw [← List.zipIdx_map_fst 0 requests, List.filter_map]
  conv_rhs => rw [← List.zipIdx_map_fst 0 (transcript respond state requests), List.filter_map]
  exact @transcript_filter_zipIdx _ _ _ respond (keep ·.1)
    (fun state request _ ↦ hinert state request) state requests 0

/-! ## Reorderings -/

/-- Exchange neighbours that are independent, any number of times. -/
inductive Reordering (independent : Request → Request → Prop) :
    List Request → List Request → Prop where
  | refl (requests : List Request) : Reordering independent requests requests
  | swap (front back : List Request) {first second : Request}
    (h : independent first second) :
    Reordering independent (front ++ first :: second :: back) (front ++ second :: first :: back)
  | trans {first second third : List Request} (hfirst : Reordering independent first second)
    (hsecond : Reordering independent second third) : Reordering independent first third

section Reorderings

variable {independent : Request → Request → Prop} {first second : List Request}

theorem Reordering.perm (h : Reordering independent first second) : first.Perm second := by
  induction h with
  | refl requests => exact .refl requests
  | swap front back h => exact (List.Perm.swap _ _ back).append_left front
  | trans hfirst hsecond ihfirst ihsecond => exact ihfirst.trans ihsecond

/-- Two requests that can be served in either order. -/
structure Interchangeable (first second : Request) : Prop where
  next : ∀ state, (respond (respond state first).1 second).1 =
    (respond (respond state second).1 first).1
  left : ∀ state, (respond (respond state second).1 first).2 = (respond state first).2
  right : ∀ state, (respond (respond state first).1 second).2 = (respond state second).2

variable {respond}

/-- The order of independent requests shows neither in the final state nor in any answer. -/
theorem Reordering.serve (hcommute : ∀ a b, independent a b → Interchangeable respond a b)
    (h : Reordering independent first second) (state : State) :
    after respond state first = after respond state second ∧
      Reordering (fun a b : Request × Response ↦ independent a.1 b.1)
        (transcript respond state first) (transcript respond state second) := by
  induction h with
  | refl requests => exact ⟨rfl, .refl _⟩
  | @swap front back a b h =>
    have hab := hcommute a b h
    constructor
    · rw [after_append, after_append]
      exact congrArg (after respond · back) (hab.next (after respond state front))
    · rw [transcript_append, transcript_append, transcript, transcript, transcript, transcript,
        hab.next, hab.left, hab.right]
      exact .swap _ _ h
  | trans hfirst hsecond ihfirst ihsecond =>
    exact ⟨ihfirst.1.trans ihsecond.1, ihfirst.2.trans ihsecond.2⟩

/-- A request can be moved behind the requests it is independent of. -/
theorem reordering_cons_append {request : Request} {requests : List Request}
    (h : ∀ other ∈ requests, independent request other) (rest : List Request) :
    Reordering independent (request :: (requests ++ rest)) (requests ++ request :: rest) := by
  have hmoved (front : List Request) : Reordering independent
      (front ++ request :: (requests ++ rest)) (front ++ (requests ++ request :: rest)) := by
    induction requests generalizing front with
    | nil => exact .refl _
    | cons other requests ih =>
      have hswap := Reordering.swap front (requests ++ rest) (h other List.mem_cons_self)
      have hrest := ih (fun another hanother ↦ h another (List.mem_cons_of_mem other hanother))
        (front ++ [other])
      rw [List.append_assoc, List.append_assoc] at hrest
      exact hswap.trans hrest
  exact hmoved []

/-- A request can be repeated when serving it twice in a row has the effect of serving it once and
everything in between is independent of it. -/
theorem after_repeated (hcommute : ∀ a b, independent a b → Interchangeable respond a b)
    {request : Request} {requests : List Request}
    (hindependent : ∀ other ∈ requests, independent request other)
    (hidempotent : ∀ state, (respond (respond state request).1 request).1 =
      (respond state request).1) (state : State) :
    after respond state (request :: requests ++ [request]) =
      after respond state (request :: requests) := by
  have hmoved := ((reordering_cons_append hindependent []).serve hcommute
    (respond state request).1).1
  calc after respond state (request :: requests ++ [request])
      = after respond (respond state request).1 (requests ++ [request]) := rfl
    _ = after respond (respond state request).1 (request :: (requests ++ [])) := hmoved.symm
    _ = after respond (respond (respond state request).1 request).1 requests := by
      rw [List.append_nil]
      rfl
    _ = after respond state (request :: requests) := by
      rw [hidempotent]
      rfl

/-- Serving a request first does not show in the answers to requests that are independent of it. -/
theorem transcript_after_independent (hcommute : ∀ a b, independent a b → Interchangeable respond a b)
    {request : Request} {requests : List Request}
    (hindependent : ∀ other ∈ requests, independent request other) (state : State) :
    transcript respond (respond state request).1 requests = transcript respond state requests := by
  induction requests generalizing state with
  | nil => rfl
  | cons other requests ih =>
    have hother := hcommute request other (hindependent other List.mem_cons_self)
    rw [transcript, transcript, hother.right, hother.next,
      ih fun another hanother ↦ hindependent another (List.mem_cons_of_mem other hanother)]

/-- When the requests of a part of the run are independent of all others, they get the answers that
they would get without the others. -/
theorem transcript_part (hcommute : ∀ a b, independent a b → Interchangeable respond a b)
    {part : Request → Bool} {requests : List Request}
    (hindependent : ∀ a ∈ requests, ∀ b ∈ requests, part a = false → part b = true →
      independent a b) (state : State) :
    transcript respond state (requests.filter part) =
      (transcript respond state requests).filter (part ·.1) := by
  induction requests generalizing state with
  | nil => rfl
  | cons request requests ih =>
    have hrest := ih fun a ha b hb ↦
      hindependent a (List.mem_cons_of_mem request ha) b (List.mem_cons_of_mem request hb)
    rw [List.filter_cons, transcript, List.filter_cons]
    cases hpart : part request with
    | true => rw [if_pos rfl, if_pos rfl, transcript, hrest]
    | false =>
      rw [if_neg Bool.false_ne_true, if_neg Bool.false_ne_true, ← hrest]
      symm
      apply transcript_after_independent hcommute
      intro other hother
      obtain ⟨hmem, hin⟩ := List.mem_filter.mp hother
      exact hindependent request List.mem_cons_self other (List.mem_cons_of_mem request hmem) hpart hin

end Reorderings

/-! ## States that are not told apart -/

/-- A relation between states that the allowed requests keep, and that none of their answers
shows. -/
structure Unwinds (allowed : Request → Prop) (relation : State → State → Prop) : Prop where
  response : ∀ state state' request, allowed request → relation state state' →
    (respond state request).2 = (respond state' request).2
  next : ∀ state state' request, allowed request → relation state state' →
    relation (respond state request).1 (respond state' request).1

variable {respond}

/-- Two runs of allowed requests from related states have one transcript and end in related
states. -/
theorem Unwinds.transcript_eq {allowed : Request → Prop} {relation : State → State → Prop}
    (h : Unwinds respond allowed relation) {requests : List Request}
    (hallowed : ∀ request ∈ requests, allowed request) {state state' : State}
    (hstart : relation state state') :
    transcript respond state requests = transcript respond state' requests ∧
      relation (after respond state requests) (after respond state' requests) := by
  induction requests generalizing state state' with
  | nil => exact ⟨rfl, hstart⟩
  | cons request requests ih =>
    have hrequest := hallowed request List.mem_cons_self
    obtain ⟨hrest, hend⟩ := ih
      (fun other hother ↦ hallowed other (List.mem_cons_of_mem request hother))
      (h.next state state' request hrequest hstart)
    refine ⟨?_, hend⟩
    rw [transcript, transcript, hrest, h.response state state' request hrequest hstart]

/-! ## Parts of a component -/

variable (respond)

/-- A part of a component's requests that is served as another component would serve it, whatever
is requested besides: the part's requests are translated, and the others keep the relation. -/
structure ServesPart {Other Call : Type*} (other : Other → Call → Other × Response)
    (part : Request → Option Call) (relation : State → Other → Prop) : Prop where
  response : ∀ state state' request call, part request = some call → relation state state' →
    (respond state request).2 = (other state' call).2
  next : ∀ state state' request call, part request = some call → relation state state' →
    relation (respond state request).1 (other state' call).1
  foreign : ∀ state state' request, part request = none → relation state state' →
    relation (respond state request).1 state'

/-- The requests of the part get the answers that the other component gives to them alone. -/
theorem ServesPart.transcript_eq {Other Call : Type*} {other : Other → Call → Other × Response} {part : Request → Option Call}
    {relation : State → Other → Prop} (h : ServesPart respond other part relation)
    {state : State} {state' : Other} (hstart : relation state state') (requests : List Request) :
    (transcript respond state requests).filterMap
        (fun pair ↦ (part pair.1).map fun call ↦ (call, pair.2)) =
      transcript other state' (requests.filterMap part) := by
  induction requests generalizing state state' with
  | nil => rfl
  | cons request requests ih =>
    rw [transcript, List.filterMap_cons, List.filterMap_cons]
    cases hpart : part request with
    | none => exact ih (h.foreign state state' request hpart hstart)
    | some call =>
      simp only [Option.map_some, transcript]
      rw [h.response state state' request call hpart hstart,
        ih (h.next state state' request call hpart hstart)]

end SolidCommunity.Foundations.Runs
