import SolidCommunity.Foundations.Transcripts
import SolidCommunity.ServerCore.RequestPipeline
import SolidCommunity.ServerCore.StoreHistory

/-!
# The Service over Whole Runs

The pipeline serves requests one after another on one store.  Each of them comes to at most one
mutation, which its approval, its path and its method decide, so the store after a run is the
record of these mutations, and the requests that come to none can be dropped without a trace.
-/

namespace SolidCommunity.ServerCore.Service

open Foundations.FiniteMap Foundations.Runs Foundations.Text Http LdpHandlers Pipeline
  RequestPipeline Routing

/-- A request, and the slug that its handler would draw. -/
structure Arrival where
  request : Request
  slug : Slug

section

variable (authz : AuthzState) (routerAnswer : Request → Response)

/-- One request after another through `RequestPipeline::build_router`. -/
def serve (store : LdpStore) (arrival : Arrival) : LdpStore × Response :=
  buildRouter authz routerAnswer arrival.slug store arrival.request

/-- Whether the reader and the authoriser let the request pass. -/
def approves (request : Request) : Bool :=
  match authz.permissionReader (extractCredentials request) (accessMap request) with
  | none => false
  | some permissions =>
    (authz.authorizer (extractCredentials request) (accessMap request) permissions).isOk

/-- The mutation that the request comes to. -/
def mutation (arrival : Arrival) : Option Mutation :=
  if approves authz arrival.request then
    (capture arrival.request.path).bind fun path ↦
      HandledRequest.mutation ⟨path, arrival.slug, arrival.request⟩
  else none

/-- The mutations that the requests come to, in their order. -/
def history (arrivals : List Arrival) : List Mutation := arrivals.filterMap (mutation authz)

end

variable {authz : AuthzState} {routerAnswer : Request → Response}

theorem approves_eq_true_iff {request : Request} :
    approves authz request = true ↔ Approved authz request := by
  unfold approves Approved
  cases hread : authz.permissionReader (extractCredentials request) (accessMap request) with
  | none => simp
  | some permissions =>
    cases hdecision : authz.authorizer (extractCredentials request) (accessMap request)
        permissions with
    | error error => simp [Except.isOk, Except.toBool, hdecision]
    | ok _ => simp [Except.isOk, Except.toBool, hdecision]

theorem rejected_of_not_approves {request : Request} (h : approves authz request = false) :
    Rejected authz request := by
  apply (approved_or_rejected authz request).resolve_left
  intro happroved
  rw [approves_eq_true_iff.mpr happroved] at h
  exact Bool.noConfusion h

/-- A request that is not approved is answered without the store. -/
theorem exists_serve_eq {arrival : Arrival} (h : approves authz arrival.request = false) :
    ∃ response, ∀ routerAnswer store, serve authz routerAnswer store arrival = (store, response) := by
  obtain ⟨response, hresponse⟩ := exists_response_of_rejected (rejected_of_not_approves h)
  exact ⟨response, fun routerAnswer ↦ hresponse routerAnswer arrival.slug⟩

/-- An approved request is answered by the route table, with the headers for browsers. -/
theorem serve_of_approves {arrival : Arrival} (h : approves authz arrival.request = true)
    (store : LdpStore) :
    serve authz routerAnswer store arrival =
      corsMiddleware (ldpService routerAnswer arrival.slug) arrival.request none store :=
  buildRouter_of_approved (approves_eq_true_iff.mp h) routerAnswer arrival.slug store

/-- The answer of a handler on its way through the outer layer. -/
theorem serve_of_capture {arrival : Arrival} {path : Option Str}
    (happroves : approves authz arrival.request = true)
    (hcapture : capture arrival.request.path = some path) {store : LdpStore}
    {result : LdpStore × Response}
    (hhandle : handle store path arrival.slug arrival.request = some result) :
    serve authz routerAnswer store arrival =
      (result.1, { result.2 with headers := corsHeaders arrival.request result.2.headers }) := by
  rw [serve_of_approves happroves]
  simp only [corsMiddleware, ldpService, ldpRouter, hcapture, Option.bind_some, hhandle,
    Option.getD_some]

/-- A request does to the store what its mutation does. -/
theorem store_serve (authz : AuthzState) (routerAnswer : Request → Response) (store : LdpStore)
    (arrival : Arrival) :
    (serve authz routerAnswer store arrival).1 =
      ((mutation authz arrival).map (·.apply store)).getD store := by
  unfold mutation
  cases happroves : approves authz arrival.request with
  | false =>
    obtain ⟨response, hresponse⟩ := exists_serve_eq happroves
    rw [hresponse]
    rfl
  | true =>
    rw [if_pos rfl, serve_of_approves happroves]
    simp only [corsMiddleware, ldpService, ldpRouter]
    cases capture arrival.request.path with
    | none => rfl
    | some path =>
      rw [Option.bind_some, Option.bind_some, ← HandledRequest.store_eq, HandledRequest.store]
      cases handle store path arrival.slug arrival.request <;> rfl

/-- The store after a run is the record of its mutations. -/
theorem after_serve (authz : AuthzState) (routerAnswer : Request → Response) (store : LdpStore)
    (arrivals : List Arrival) :
    after (serve authz routerAnswer) store arrivals =
      Mutation.applyAll store (history authz arrivals) := by
  induction arrivals generalizing store with
  | nil => rfl
  | cons arrival arrivals ih =>
    have hstep := store_serve authz routerAnswer store arrival
    calc after (serve authz routerAnswer) store (arrival :: arrivals)
        = Mutation.applyAll (serve authz routerAnswer store arrival).1 (history authz arrivals) :=
          ih _
      _ = Mutation.applyAll store (history authz (arrival :: arrivals)) := by
        rw [hstep, history, history, List.filterMap_cons]
        cases mutation authz arrival <;> rfl

/-! ## Requests without a mutation -/

/-- Requests that come to no mutation leave no trace: whichever of them are dropped from a run, each
by its position, the run ends in the same store, and all other requests get the same answers. -/
theorem transcript_without_readers (authz : AuthzState) (routerAnswer : Request → Response)
    (keep : ℕ → Bool) (store : LdpStore) (arrivals : List Arrival) :
    let kept := fun arrival index ↦ (mutation authz arrival).isSome || keep index
    after (serve authz routerAnswer) store
        ((arrivals.zipIdx.filter fun arrival ↦ kept arrival.1 arrival.2).map Prod.fst) =
      after (serve authz routerAnswer) store arrivals ∧
    transcript (serve authz routerAnswer) store
        ((arrivals.zipIdx.filter fun arrival ↦ kept arrival.1 arrival.2).map Prod.fst) =
      ((transcript (serve authz routerAnswer) store arrivals).zipIdx.filter fun answered ↦
        kept answered.1.1 answered.2).map Prod.fst := by
  intro kept
  have hinert (store : LdpStore) (arrival : Arrival) (index : ℕ) (hkept : kept arrival index = false) :
      (serve authz routerAnswer store arrival).1 = store := by
    have hnone : mutation authz arrival = none := by
      simpa using (Bool.or_eq_false_iff.mp hkept).1
    rw [store_serve, hnone]
    rfl
  exact ⟨after_filter_zipIdx _ hinert store arrivals 0,
    transcript_filter_zipIdx _ hinert store arrivals 0⟩

/-! ## The number of entries -/

/-- Every put or post adds at most a hundred entries to the store, and nothing else adds any. -/
theorem card_after_le (authz : AuthzState) (routerAnswer : Request → Response)
    (arrivals : List Arrival) :
    (after (serve authz routerAnswer) LdpStore.new arrivals).keys.card ≤
      1 + 100 * arrivals.countP fun arrival ↦ (mutation authz arrival).any Mutation.isPut := by
  have hcount : (history authz arrivals).countP Mutation.isPut =
      arrivals.countP fun arrival ↦ (mutation authz arrival).any Mutation.isPut := by
    rw [history, List.countP_filterMap]
    apply List.countP_congr
    intro arrival _
    cases mutation authz arrival <;> simp
  rw [after_serve, ← hcount]
  exact Mutation.card_applyAll_le LdpStore.new (history authz arrivals)

/-! ## Samples -/

/-- The header of a request that the authoriser of one token lets pass. -/
def withToken : HeaderName × HeaderValue :=
  (HeaderName.authorization, ⟨encode "Bearer t".toList, by decide⟩)

/-- A generated name. -/
def sampleSlug : Slug := ⟨"1f3c9b02-5d7e-4a86-8e41-c0b7d29a6f35".toList, rfl, by decide⟩

def tokenPut : Arrival := ⟨⟨.put, "/a".toList, [withToken], some [1]⟩, sampleSlug⟩

def anonymousPut : Arrival := ⟨⟨.put, "/a".toList, [], some [2]⟩, sampleSlug⟩

def tokenGet : Arrival := ⟨⟨.get, "/a".toList, [withToken], none⟩, sampleSlug⟩

end SolidCommunity.ServerCore.Service
