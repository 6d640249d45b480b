import SolidCommunity.ServerCore.Service

/-!
# Isolation of Clients

The answer to a request depends on the entry of one key, and a request changes the entry of one key
and the absent containers above it.  Requests that do not meet in this way can be served in either
order, so a client whose requests meet nobody else's gets the answers that it would get alone, and
a put or a deletion can be retried as long as nothing in between meets it.
-/

namespace SolidCommunity.ServerCore.Service

open Foundations.EntryEffects Foundations.FiniteMap Foundations.Runs Foundations.Text Http
  LdpHandlers Pipeline RequestPipeline Routing

/-! ## What a request refers to -/

/-- The mutation neither assigns nor creates the entry of the key. -/
def Spares (mutation : Mutation) (key : Str) : Prop :=
  key ≠ mutation.target ∧ key ∉ mutation.ensures

instance (mutation : Mutation) (key : Str) : Decidable (Spares mutation key) :=
  inferInstanceAs (Decidable (_ ∧ _))

theorem effect_of_spares {mutation : Mutation} {key : Str} (h : Spares mutation key) :
    mutation.effect key = .keep := by
  rw [Mutation.effect, if_neg h.1, if_neg h.2]

section

variable (authz : AuthzState)

/-- The key that an approved get or head looks up. -/
def readKey (arrival : Arrival) : Option Str :=
  if approves authz arrival.request ∧
      (arrival.request.method = .get ∨ arrival.request.method = .head) then
    (capture arrival.request.path).map accessedKey
  else none

/-- The key whose entry decides the answer to the request. -/
def observed (arrival : Arrival) : Option Str :=
  ((mutation authz arrival).map Mutation.target).or (readKey authz arrival)

/-- What the request does to the entry of a key. -/
def effect (arrival : Arrival) (key : Str) : Effect Entry :=
  ((mutation authz arrival).map (·.effect key)).getD .keep

/-- The requests do not meet: neither touches the entry that decides the answer to the other. -/
def Independent (first second : Arrival) : Prop :=
  (∀ change ∈ mutation authz first, ∀ key ∈ observed authz second, Spares change key) ∧
    ∀ change ∈ mutation authz second, ∀ key ∈ observed authz first, Spares change key

instance (first second : Arrival) : Decidable (Independent authz first second) :=
  inferInstanceAs (Decidable (
    (∀ change ∈ mutation authz first, ∀ key ∈ observed authz second, Spares change key) ∧
      ∀ change ∈ mutation authz second, ∀ key ∈ observed authz first, Spares change key))

end

variable {authz : AuthzState} {routerAnswer : Request → Response} {first second : Arrival}

/-- A request treats every entry on its own. -/
theorem pointwise_serve (authz : AuthzState) (routerAnswer : Request → Response) :
    Pointwise (fun store arrival ↦ (serve authz routerAnswer store arrival).1) (effect authz) := by
  intro store arrival key
  dsimp only
  rw [store_serve, effect]
  cases mutation authz arrival with
  | none => rfl
  | some mutation => exact Mutation.pointwise_apply store mutation key

/-! ## Answers -/

/-- Whether a put creates its entry depends on that entry alone. -/
theorem created_congr {first second : LdpStore} {path : Str}
    (h : first.lookup (LdpStore.key path) = second.lookup (LdpStore.key path)) (body : Bytes)
    (contentType : Str) :
    (first.put path body contentType).2 = (second.put path body contentType).2 := by
  have hmem : LdpStore.key path ∈ first.ensureAncestors (LdpStore.key path) ↔
      LdpStore.key path ∈ second.ensureAncestors (LdpStore.key path) := by
    rw [LdpStore.mem_ensureAncestors, LdpStore.mem_ensureAncestors, mem_congr h]
  simp only [LdpStore.put, LdpStore.insertEntry, hmem]

/-- What the handlers answer depends on one entry. -/
theorem handle_congr {first second : LdpStore} {path : Option Str} {slug : Slug}
    {request : Request}
    (hmutation : ∀ mutation ∈ HandledRequest.mutation ⟨path, slug, request⟩,
      first.lookup mutation.target = second.lookup mutation.target)
    (hread : request.method = .get ∨ request.method = .head →
      first.lookup (accessedKey path) = second.lookup (accessedKey path)) :
    (handle first path slug request).map Prod.snd =
      (handle second path slug request).map Prod.snd := by
  unfold HandledRequest.mutation at hmutation
  unfold handle
  cases hmethod : request.method with
  | get => simp [handleGet_congr (hread (.inl hmethod))]
  | head => simp [handleHead_congr (hread (.inr hmethod))]
  | put =>
    cases hbody : request.body with
    | none => simp [handlePut, hbody]
    | some body =>
      have hcreated := created_congr
        (hmutation (.put (resolvePath path) body (writtenContentType request))
          (by simp [hmethod, hbody])) body (writtenContentType request)
      simp [handlePut, hbody, hcreated]
  | post =>
    cases hbody : request.body with
    | none => simp [handlePost, hbody]
    | some body => simp [handlePost, hbody]
  | delete =>
    have hmem := mem_congr (hmutation (.delete (resolvePath path)) (by simp [hmethod]))
    rw [Mutation.target] at hmem
    simp [handleDelete, LdpStore.delete, hmem]
  | options | patch | other => rfl

/-- What a request is answered depends on the entry of the key that it observes. -/
theorem answer_congr {store other : LdpStore} {arrival : Arrival}
    (h : ∀ key ∈ observed authz arrival, store.lookup key = other.lookup key) :
    (serve authz routerAnswer store arrival).2 = (serve authz routerAnswer other arrival).2 := by
  cases happroves : approves authz arrival.request with
  | false =>
    obtain ⟨response, hresponse⟩ := exists_serve_eq happroves
    rw [hresponse, hresponse]
  | true =>
    rw [serve_of_approves happroves, serve_of_approves happroves]
    simp only [corsMiddleware, ldpService, ldpRouter]
    cases hcapture : capture arrival.request.path with
    | none => rfl
    | some path =>
      have hmutates : mutation authz arrival =
          HandledRequest.mutation ⟨path, arrival.slug, arrival.request⟩ := by
        rw [mutation, if_pos happroves, hcapture, Option.bind_some]
      have hhandle : (handle store path arrival.slug arrival.request).map Prod.snd =
          (handle other path arrival.slug arrival.request).map Prod.snd := by
        apply handle_congr
        · intro mutation hmutation
          apply h
          rw [observed, hmutates, hmutation]
          rfl
        · intro hread
          apply h
          have hnone : HandledRequest.mutation ⟨path, arrival.slug, arrival.request⟩ = none := by
            rcases hread with hmethod | hmethod <;> simp [HandledRequest.mutation, hmethod]
          rw [observed, hmutates, hnone, readKey, if_pos ⟨happroves, hread⟩, hcapture]
          rfl
      rw [Option.bind_some, Option.bind_some]
      cases hfirst : handle store path arrival.slug arrival.request <;>
        cases hsecond : handle other path arrival.slug arrival.request <;> simp_all

/-! ## Independent requests -/

/-- On every entry the effects of independent requests agree. -/
theorem Independent.agrees (h : Independent authz first second) (key : Str) :
    (effect authz first key).Agrees (effect authz second key) := by
  unfold effect
  cases hfirst : mutation authz first with
  | none => trivial
  | some left =>
    cases hsecond : mutation authz second with
    | none => exact Effect.agrees_keep _
    | some right =>
      have hleft : Spares left right.target := h.1 left hfirst right.target (by
        rw [observed, hsecond]
        rfl)
      have hright : Spares right left.target := h.2 right hsecond left.target (by
        rw [observed, hfirst]
        rfl)
      simp only [Option.map_some, Option.getD_some]
      by_cases hkey : key = left.target
      · rw [hkey, effect_of_spares hright]
        exact Effect.agrees_keep _
      · by_cases hkey' : key = right.target
        · rw [hkey', effect_of_spares hleft]
          trivial
        · rw [Mutation.effect, Mutation.effect, if_neg hkey, if_neg hkey']
          split
          · split <;> trivial
          · trivial

/-- Independent requests can be served in either order. -/
theorem interchangeable_of_independent (routerAnswer : Request → Response)
    (h : Independent authz first second) :
    Interchangeable (serve authz routerAnswer) first second := by
  have hkept {one other : Arrival}
      (hspares : ∀ change ∈ mutation authz one, ∀ key ∈ observed authz other, Spares change key)
      (store : LdpStore) :
      (serve authz routerAnswer (serve authz routerAnswer store one).1 other).2 =
        (serve authz routerAnswer store other).2 := by
    apply answer_congr
    intro key hkey
    rw [show (serve authz routerAnswer store one).1.lookup key = _ from
      pointwise_serve authz routerAnswer store one key, effect]
    cases hchange : mutation authz one with
    | none => rfl
    | some change =>
      rw [Option.map_some, effect_of_spares (hspares change hchange key hkey)]
      rfl
  exact
    { next := (pointwise_serve authz routerAnswer).comm h.agrees
      left := hkept h.2
      right := hkept h.1 }

/-- The order in which independent requests arrive shows neither in the final store nor in any
answer. -/
theorem serve_reordering {arrivals order : List Arrival}
    (h : Reordering (Independent authz) arrivals order) (store : LdpStore) :
    after (serve authz routerAnswer) store arrivals = after (serve authz routerAnswer) store order ∧
      (transcript (serve authz routerAnswer) store arrivals).Perm
        (transcript (serve authz routerAnswer) store order) := by
  have hserve := h.serve (fun _ _ hab ↦ interchangeable_of_independent routerAnswer hab) store
  exact ⟨hserve.1, hserve.2.perm⟩

/-- A deletion below another container than the one that a put needs. -/
def tokenDelete : Arrival := ⟨⟨.delete, "/b/c".toList, [withToken], none⟩, sampleSlug⟩

/-- The put and the deletion can arrive in either order. -/
theorem serve_reordering_delete :
    after (serve knownToken fun _ ↦ StatusCode.notFound.intoResponse) LdpStore.new
        [tokenPut, tokenDelete] =
      after (serve knownToken fun _ ↦ StatusCode.notFound.intoResponse) LdpStore.new
        [tokenDelete, tokenPut] :=
  (serve_reordering (.swap [] [] (by decide)) LdpStore.new).1

/-! ## Clients -/

section Clients

variable {Client : Type*} [DecidableEq Client]

/-- A request of some client. -/
def serveClient (authz : AuthzState) (routerAnswer : Request → Response) (store : LdpStore)
    (sent : Client × Arrival) : LdpStore × Response :=
  serve authz routerAnswer store sent.2

/-- A client whose requests are independent of everybody else's gets the answers that it would get
alone, in whichever order all requests arrive. -/
theorem answers_isolated {client : Client} {requests : List (Client × Arrival)}
    (hindependent : ∀ other ∈ requests, ∀ own ∈ requests, other.1 ≠ client → own.1 = client →
      Independent authz other.2 own.2) (store : LdpStore) :
    transcript (serveClient authz routerAnswer) store (requests.filter (·.1 = client)) =
      (transcript (serveClient authz routerAnswer) store requests).filter (·.1.1 = client) := by
  have hcommute (first second : Client × Arrival) (h : Independent authz first.2 second.2) :
      Interchangeable (serveClient authz routerAnswer) first second := by
    have hserve := interchangeable_of_independent routerAnswer h
    exact ⟨hserve.next, hserve.left, hserve.right⟩
  apply transcript_part hcommute
  intro other hother own hown hforeign hclient
  exact hindependent other hother own hown (of_decide_eq_false hforeign) (of_decide_eq_true hclient)

/-- One client puts and reads a document, while another one deletes a different document. -/
theorem answers_isolated_put :
    transcript (serveClient knownToken fun _ ↦ StatusCode.notFound.intoResponse) LdpStore.new
        [(true, tokenPut), (true, tokenGet)] =
      (transcript (serveClient knownToken fun _ ↦ StatusCode.notFound.intoResponse) LdpStore.new
        [(true, tokenPut), (false, tokenDelete), (true, tokenGet)]).filter (·.1.1 = true) := by
  have hindependent : ∀ other ∈ [(true, tokenPut), (false, tokenDelete), (true, tokenGet)],
      ∀ own ∈ [(true, tokenPut), (false, tokenDelete), (true, tokenGet)],
        other.1 ≠ true → own.1 = true → Independent knownToken other.2 own.2 := by
    decide
  exact answers_isolated hindependent LdpStore.new

end Clients

/-! ## Retries -/

/-- Requests other than posts do not draw a name. -/
theorem serve_eq_of_request {arrival again : Arrival} (hsame : again.request = arrival.request)
    (hmethod : arrival.request.method ≠ .post) (store : LdpStore) :
    serve authz routerAnswer store again = serve authz routerAnswer store arrival := by
  obtain ⟨request, slug⟩ := arrival
  obtain ⟨request', slug'⟩ := again
  obtain rfl : request' = request := hsame
  have hhandle (path : Option Str) :
      handle store path slug' request' = handle store path slug request' := by
    unfold handle
    cases hcase : request'.method with
    | post => exact absurd hcase hmethod
    | _ => rfl
  unfold serve buildRouter corsMiddleware authzMiddleware ldpService ldpRouter
  simp only [hhandle]

/-- A request other than a post can be retried: when nothing in between meets it, its retry changes
neither the store nor any later answer. -/
theorem retry_unnoticed {arrival again : Arrival} (hsame : again.request = arrival.request)
    (hmethod : arrival.request.method ≠ .post) {between : List Arrival}
    (hbetween : ∀ other ∈ between, Independent authz arrival other) (store : LdpStore)
    (rest : List Arrival) :
    after (serve authz routerAnswer) store (arrival :: between ++ again :: rest) =
        after (serve authz routerAnswer) store (arrival :: between ++ rest) ∧
      (transcript (serve authz routerAnswer) store (arrival :: between ++ again :: rest)).eraseIdx
          (between.length + 1) =
        transcript (serve authz routerAnswer) store (arrival :: between ++ rest) := by
  have hagain : (serve authz routerAnswer
      (after (serve authz routerAnswer) store (arrival :: between)) again).1 =
        after (serve authz routerAnswer) store (arrival :: between) := by
    rw [serve_eq_of_request hsame hmethod]
    have hrepeated := after_repeated (fun _ _ hab ↦ interchangeable_of_independent routerAnswer hab) hbetween
      (fun state ↦ (pointwise_serve authz routerAnswer).perform_perform_self state arrival) store
    rw [after_append] at hrepeated
    exact hrepeated
  constructor
  · rw [after_append, after_append]
    exact congrArg (after (serve authz routerAnswer) · rest) hagain
  · have hlength : (transcript (serve authz routerAnswer) store (arrival :: between)).length =
        between.length + 1 := by
      rw [← List.length_map, map_fst_transcript, List.length_cons]
    rw [transcript_append, transcript_append,
      List.eraseIdx_append_of_length_le (Nat.le_of_eq hlength), hlength, Nat.sub_self]
    apply congrArg (transcript (serve authz routerAnswer) store (arrival :: between) ++ ·)
    rw [transcript, List.eraseIdx_cons_zero, hagain]

/-- A put that is retried after a deletion elsewhere. -/
theorem retry_unnoticed_put :
    after (serve knownToken fun _ ↦ StatusCode.notFound.intoResponse) LdpStore.new
        [tokenPut, tokenDelete, tokenPut, tokenGet] =
      after (serve knownToken fun _ ↦ StatusCode.notFound.intoResponse) LdpStore.new
        [tokenPut, tokenDelete, tokenGet] := by
  have hindependent : ∀ other ∈ [tokenDelete], Independent knownToken tokenPut other := by
    decide
  exact (retry_unnoticed rfl (by decide) hindependent LdpStore.new [tokenGet]).1

end SolidCommunity.ServerCore.Service
