import SolidCommunity.ServerCore.Service

/-!
# Reads after Writes

A get that follows any run of requests is answered from what the run records under its key.  What a
request stores has a content type that a header can carry, since it came from a header or is one of
the two defaults, so no get or head ever fails inside the server; only a post to a target with a
control character does.
-/

namespace SolidCommunity.ServerCore.Service

open Foundations.FiniteMap Foundations.Runs Foundations.Text Http LdpHandlers Pipeline
  RequestPipeline Routing

/-! ## Content types -/

/-- The content type of the entry can be sent in a header. -/
def Servable (entry : Entry) : Prop := (HeaderValue.fromStr entry.contentType).isSome = true

theorem servable_emptyContainer : Servable emptyContainer := by
  unfold Servable
  decide

/-- The content type that a write stores came from a header, or is the default. -/
theorem isSome_fromStr_writtenContentType (request : Request) :
    (HeaderValue.fromStr (writtenContentType request)).isSome = true := by
  unfold writtenContentType
  cases htext : request.headerText HeaderName.contentType with
  | none => decide
  | some text =>
    obtain ⟨value, -, hvalue⟩ := Option.bind_eq_some_iff.mp htext
    rw [Option.getD_some, fromStr_of_toStr hvalue]
    rfl

theorem servable_of_mutation {handled : HandledRequest} {mutation : Mutation} {entry : Entry}
    (h : handled.mutation = some mutation) (hwritten : mutation.written = some entry) :
    Servable entry := by
  have hput (path : Str) (hmap : (handled.request.body.map fun body ↦
      Mutation.put path body (writtenContentType handled.request)) = some mutation) :
      Servable entry := by
    obtain ⟨body, -, rfl⟩ := Option.map_eq_some_iff.mp hmap
    obtain rfl := Option.some_inj.mp hwritten
    exact isSome_fromStr_writtenContentType handled.request
  unfold HandledRequest.mutation at h
  split at h
  · exact hput _ h
  · exact hput _ h
  · obtain rfl := Option.some_inj.mp h
    simp [Mutation.written] at hwritten
  · simp at h

/-- A recorded entry is an empty container or was written by a mutation of the history. -/
theorem exists_written_of_recorded {key : Str} {history : List Mutation} {entry : Entry}
    (h : Mutation.recorded key history = some entry) :
    entry = emptyContainer ∨ ∃ mutation ∈ history, mutation.written = some entry := by
  unfold Mutation.recorded at h
  split at h
  · next path body contentType hlatest =>
    exact .inr ⟨_, List.mem_reverse.mp (List.mem_of_find?_eq_some hlatest), h⟩
  · exact .inl (Option.some_inj.mp (Option.ite_none_right_eq_some.mp h).2).symm
  · exact .inl (Option.some_inj.mp (Option.ite_none_right_eq_some.mp h).2).symm

section

variable {authz : AuthzState} {arrivals : List Arrival} {key : Str} {entry : Entry}

theorem servable_of_recorded (h : Mutation.recorded key (history authz arrivals) = some entry) :
    Servable entry := by
  rcases exists_written_of_recorded h with rfl | ⟨mutation, hmutation, hwritten⟩
  · exact servable_emptyContainer
  · obtain ⟨arrival, -, harrival⟩ := List.mem_filterMap.mp hmutation
    obtain ⟨-, harrival⟩ := Option.ite_none_right_eq_some.mp harrival
    obtain ⟨path, -, hhandled⟩ := Option.bind_eq_some_iff.mp harrival
    exact servable_of_mutation hhandled hwritten

/-- The entry under a key after a run is the recorded one. -/
theorem get_after (authz : AuthzState) (routerAnswer : Request → Response)
    (arrivals : List Arrival) (path : Option Str) :
    (after (serve authz routerAnswer) LdpStore.new arrivals).get (resolvePath path) =
      Mutation.recorded (accessedKey path) (history authz arrivals) := by
  rw [after_serve]
  exact Mutation.lookup_applyAll (history authz arrivals) (accessedKey path)

end

/-! ## Reads -/

/-- The request carries an `Accept` header that the entry cannot satisfy. -/
def refuses (request : Request) (entry : Entry) : Bool :=
  (request.headerText HeaderName.accept).any (!acceptSatisfied · entry.contentType)

/-- A successful answer that carries the entry. -/
structure Serves (entry : Entry) (response : Response) : Prop where
  status : response.status = StatusCode.ok
  contentType : response.headers.get HeaderName.contentType = HeaderValue.fromStr entry.contentType
  link : response.headers.get HeaderName.link =
    some (if entry.isContainer then containerLink else resourceLink)
  body : response.body = entry.body

/-- What a get of a key answers that holds the entry. -/
def AnswersGet (request : Request) (response : Response) : Option Entry → Prop
  | none => response.status = StatusCode.notFound
  | some entry =>
    if refuses request entry then response.status = StatusCode.notAcceptable
    else Serves entry response

section

variable {store : LdpStore} {path : Option Str} {request : Request}

theorem filter_accept_eq_none_iff {entry : Entry} :
    (request.headerText HeaderName.accept).filter (!acceptSatisfied · entry.contentType) = none ↔
      refuses request entry = false := by
  cases haccept : request.headerText HeaderName.accept with
  | none => simp [refuses, haccept]
  | some accept =>
    cases hsatisfied : acceptSatisfied accept entry.contentType <;>
      simp [refuses, haccept, hsatisfied, Option.filter_some]

/-- A get of a servable entry, before the outer layer adds its headers. -/
theorem answersGet_handleGet
    (hservable : ∀ entry, store.get (resolvePath path) = some entry → Servable entry) :
    AnswersGet request (handleGet store path request) (store.get (resolvePath path)) := by
  cases hentry : store.get (resolvePath path) with
  | none =>
    simp only [AnswersGet, handleGet, hentry]
    rfl
  | some entry =>
    obtain ⟨value, hvalue⟩ := Option.isSome_iff_exists.mp (hservable entry hentry)
    cases hrefuses : refuses request entry with
    | true =>
      obtain ⟨accept, haccept⟩ : ∃ accept, (request.headerText HeaderName.accept).filter
          (!acceptSatisfied · entry.contentType) = some accept := by
        apply Option.ne_none_iff_exists'.mp
        intro hnone
        rw [filter_accept_eq_none_iff, hrefuses] at hnone
        exact Bool.noConfusion hnone
      simp only [AnswersGet, handleGet, hentry, haccept, hrefuses]
      rfl
    | false =>
      have haccept := filter_accept_eq_none_iff.mpr hrefuses
      simp only [AnswersGet, handleGet, hentry, haccept, hrefuses, hvalue]
      exact ⟨rfl, hvalue.symm, rfl, rfl⟩

/-- A header that the outer layer does not set. -/
theorem get_corsHeaders {name : HeaderName} (headers : HeaderMap)
    (horigin : name ≠ HeaderName.accessControlAllowOrigin)
    (hallow : name ≠ HeaderName.accessControlAllowHeaders)
    (hexpose : name ≠ HeaderName.accessControlExposeHeaders) :
    (corsHeaders request headers).get name = headers.get name := by
  have hinsert (other : HeaderName) (hne : name ≠ other) (value : HeaderValue)
      (headers : HeaderMap) : (headers.insert other value).get name = headers.get name := by
    have hlast : ([(other, value)] : HeaderMap).find? (·.1 == name) = none := by
      simp [Ne.symm hne]
    have hkept : (headers.filter (·.1 != other)).find? (·.1 == name) =
        headers.find? (·.1 == name) := by
      rw [List.find?_filter]
      apply congrArg (List.find? · headers)
      funext pair
      by_cases hname : pair.1 = name <;> simp [hname, hne]
    rw [HeaderMap.get, HeaderMap.insert, List.find?_append, hlast, hkept, Option.or_none]
    rfl
  rw [corsHeaders, hinsert _ hexpose, hinsert _ hallow, hinsert _ horigin]

/-- The outer layer keeps an answer to a get. -/
theorem AnswersGet.cors {response : Response} {stored : Option Entry}
    (h : AnswersGet request response stored) :
    AnswersGet request { response with headers := corsHeaders request response.headers } stored := by
  cases stored with
  | none => exact h
  | some entry =>
    dsimp only [AnswersGet] at h ⊢
    split at h
    · next hrefuses =>
      rw [if_pos hrefuses]
      exact h
    · next hserved =>
      rw [if_neg hserved]
      exact
        { status := h.status
          contentType :=
            (get_corsHeaders _ (by decide) (by decide) (by decide)).trans h.contentType
          link := (get_corsHeaders _ (by decide) (by decide) (by decide)).trans h.link
          body := h.body }

end

/-- After any run of requests, an approved get is answered with what the run records under its key:
404 for nothing, 406 for an entry that its `Accept` header refuses, and the entry otherwise. -/
theorem answersGet_after {authz : AuthzState} (routerAnswer : Request → Response)
    (arrivals : List Arrival) {arrival : Arrival} {path : Option Str}
    (happroves : approves authz arrival.request = true)
    (hcapture : capture arrival.request.path = some path)
    (hmethod : arrival.request.method = .get) :
    AnswersGet arrival.request
      (serve authz routerAnswer (after (serve authz routerAnswer) LdpStore.new arrivals) arrival).2
      (Mutation.recorded (accessedKey path) (history authz arrivals)) := by
  have hstored := get_after authz routerAnswer arrivals path
  have hhandle (store : LdpStore) : handle store path arrival.slug arrival.request =
      some (store, handleGet store path arrival.request) := by
    rw [handle, hmethod]
  rw [serve_of_capture happroves hcapture (hhandle _), ← hstored]
  apply AnswersGet.cors
  apply answersGet_handleGet
  intro entry hentry
  exact servable_of_recorded (hstored.symm.trans hentry)

/-- A put with the token is read back, and the anonymous put after it has left no trace. -/
theorem answersGet_after_put :
    AnswersGet tokenGet.request
      (serve knownToken (fun _ ↦ StatusCode.notFound.intoResponse)
        (after (serve knownToken fun _ ↦ StatusCode.notFound.intoResponse) LdpStore.new
          [tokenPut, anonymousPut]) tokenGet).2
      (some ⟨[1], "application/octet-stream".toList, false⟩) := by
  have hrecorded : Mutation.recorded (accessedKey (some "a".toList))
      (history knownToken [tokenPut, anonymousPut]) =
        some ⟨[1], "application/octet-stream".toList, false⟩ := by decide
  have hanswers := @answersGet_after knownToken (fun _ ↦ StatusCode.notFound.intoResponse)
    [tokenPut, anonymousPut] tokenGet (some "a".toList) rfl rfl rfl
  rwa [hrecorded] at hanswers

/-! ## Server errors -/

/-- A head has the status of the get. -/
theorem status_handleHead (store : LdpStore) (path : Option Str) (request : Request) :
    (handleHead store path request).status = (handleGet store path request).status := by
  cases hentry : store.get (resolvePath path) with
  | none => simp only [handleHead, handleGet, hentry]
  | some entry =>
    cases haccept : (request.headerText HeaderName.accept).filter
        (!acceptSatisfied · entry.contentType) with
    | some accept => simp only [handleHead, handleGet, hentry, haccept]
    | none =>
      simp only [handleHead, handleGet, hentry, haccept]
      cases entry.isContainer <;> cases HeaderValue.fromStr entry.contentType <;> rfl

/-- Over servable entries a handler fails inside the server for one kind of request only: a post to
a target with a control character. -/
theorem status_handle_eq_iff {store : LdpStore} {path : Option Str} {slug : Slug}
    {request : Request} {result : LdpStore × Response}
    (hservable : ∀ entry, store.get (resolvePath path) = some entry → Servable entry)
    (hhandle : handle store path slug request = some result) :
    result.2.status = StatusCode.internalServerError ↔
      request.method = .post ∧ request.body.isSome = true ∧
        (resolvePath path).any isControl = true := by
  have hget : (handleGet store path request).status ≠ StatusCode.internalServerError := by
    have hanswers : AnswersGet request (handleGet store path request)
        (store.get (resolvePath path)) := answersGet_handleGet hservable
    cases hentry : store.get (resolvePath path) with
    | none =>
      rw [hentry] at hanswers
      rw [show (handleGet store path request).status = StatusCode.notFound from hanswers]
      decide
    | some entry =>
      rw [hentry] at hanswers
      dsimp only [AnswersGet] at hanswers
      split at hanswers
      · rw [hanswers]
        decide
      · rw [hanswers.status]
        decide
  unfold handle at hhandle
  cases hmethod : request.method with
  | get =>
    simp only [hmethod, Option.some_inj] at hhandle
    simp [← hhandle, hget]
  | head =>
    simp only [hmethod, Option.some_inj] at hhandle
    simp [← hhandle, status_handleHead, hget]
  | put =>
    simp only [hmethod, Option.some_inj] at hhandle
    cases hbody : request.body with
    | none => simp [← hhandle, handlePut, hbody, StatusCode.intoResponse]
    | some body =>
      have hsuccess : (handlePut store path request).2.status < 400 := status_handlePut_lt hbody
      rw [← hhandle]
      simp only [reduceCtorEq, false_and, iff_false]
      exact fun hstatus ↦ absurd (hstatus ▸ hsuccess) (by decide)
  | post =>
    simp only [hmethod, Option.some_inj] at hhandle
    cases hbody : request.body with
    | none => simp [← hhandle, handlePost, hbody, StatusCode.intoResponse]
    | some body =>
      rw [← hhandle, status_handlePost hbody]
      cases (resolvePath path).any isControl <;> simp
  | delete =>
    simp only [hmethod, Option.some_inj] at hhandle
    rw [← hhandle]
    simp only [handleDelete, reduceCtorEq, false_and, iff_false]
    split <;> exact Nat.ne_of_beq_eq_false rfl
  | options | patch =>
    simp only [hmethod, Option.some_inj] at hhandle
    rw [← hhandle]
    simp only [reduceCtorEq, false_and, iff_false]
    exact Nat.ne_of_beq_eq_false rfl
  | other => simp [hmethod] at hhandle

/-- After any run of requests, the one kind of approved request that a handler answers with a
server error is a post to a target with a control character. -/
theorem serverError_iff {authz : AuthzState} (routerAnswer : Request → Response)
    (arrivals : List Arrival) {arrival : Arrival} {path : Option Str}
    (happroves : approves authz arrival.request = true)
    (hcapture : capture arrival.request.path = some path)
    (hmethod : arrival.request.method ≠ .other) :
    (serve authz routerAnswer (after (serve authz routerAnswer) LdpStore.new arrivals)
        arrival).2.status = StatusCode.internalServerError ↔
      arrival.request.method = .post ∧ arrival.request.body.isSome = true ∧
        (resolvePath path).any isControl = true := by
  obtain ⟨result, hhandle⟩ : ∃ result,
      handle (after (serve authz routerAnswer) LdpStore.new arrivals) path arrival.slug
        arrival.request = some result := by
    apply Option.ne_none_iff_exists'.mp
    unfold handle
    cases hmethod' : arrival.request.method <;> simp_all
  rw [serve_of_capture happroves hcapture hhandle]
  apply status_handle_eq_iff _ hhandle
  intro entry hentry
  exact servable_of_recorded ((get_after authz routerAnswer arrivals path).symm.trans hentry)

/-- A post to a container named with a line feed is such a request. -/
theorem serverError_iff_post :
    (serve knownToken (fun _ ↦ StatusCode.notFound.intoResponse) LdpStore.new
      ⟨⟨.post, "/a%0A/".toList, [withToken], some [1]⟩, sampleSlug⟩).2.status =
        StatusCode.internalServerError :=
  (@serverError_iff knownToken (fun _ ↦ StatusCode.notFound.intoResponse) []
    ⟨⟨.post, "/a%0A/".toList, [withToken], some [1]⟩, sampleSlug⟩ (some "a\n/".toList) rfl
    (by decide) (by decide)).mpr ⟨rfl, rfl, by decide⟩

end SolidCommunity.ServerCore.Service
