import SolidCommunity.ServerCore.Service

/-!
# Which Headers Count

A request is served by its method, its path, the credentials in its `Authorization` header, its
origin, and depending on the method its `Accept` header, or its body and `Content-Type` header.  No
other header is ever read: neither the conditions of a request, although the CORS headers admit
them, nor what a post says about the child that it creates.
-/

namespace SolidCommunity.ServerCore.Service

open Foundations.Runs Foundations.Text Http LdpHandlers Pipeline RequestPipeline Routing

/-- The header that a handler reads. -/
def handlerHeader : Method → Option HeaderName
  | .get | .head => some HeaderName.accept
  | .put | .post => some HeaderName.contentType
  | .delete | .options | .patch | .other => none

/-- The methods whose handlers read the body. -/
def readsBody : Method → Bool
  | .put | .post => true
  | .get | .head | .delete | .options | .patch | .other => false

/-- Two requests that differ in nothing but headers, and a body, that are not read. -/
structure Alike (first second : Arrival) : Prop where
  method : first.request.method = second.request.method
  path : first.request.path = second.request.path
  slug : first.slug = second.slug
  authorization : first.request.headers.get HeaderName.authorization =
    second.request.headers.get HeaderName.authorization
  origin : first.request.headers.get HeaderName.origin =
    second.request.headers.get HeaderName.origin
  handler : ∀ name ∈ handlerHeader first.request.method,
    first.request.headers.get name = second.request.headers.get name
  body : readsBody first.request.method = true → first.request.body = second.request.body

section Alike

variable {first second : Arrival}

theorem Alike.extractCredentials_eq (h : Alike first second) :
    extractCredentials first.request = extractCredentials second.request := by
  simp only [extractCredentials, Request.headerText, h.authorization]

theorem Alike.accessMap_eq (h : Alike first second) :
    accessMap first.request = accessMap second.request := by
  rw [accessMap, accessMap, h.path, h.method]

theorem Alike.corsHeaders_eq (h : Alike first second) (headers : HeaderMap) :
    corsHeaders first.request headers = corsHeaders second.request headers := by
  rw [corsHeaders, corsHeaders, h.origin]

theorem headerText_congr {first second : Request} {name : HeaderName}
    (h : first.headers.get name = second.headers.get name) :
    first.headerText name = second.headerText name := by
  rw [Request.headerText, Request.headerText, h]

theorem Alike.handle_eq (h : Alike first second) (store : LdpStore) (path : Option Str) :
    handle store path first.slug first.request = handle store path second.slug second.request := by
  have hheader (name : HeaderName) (hname : handlerHeader first.request.method = some name) :
      first.request.headerText name = second.request.headerText name :=
    headerText_congr (h.handler name hname)
  have hbody := h.body
  unfold handle
  rw [← h.method, ← h.slug]
  cases hmethod : first.request.method with
  | get => simp only [handleGet, hheader HeaderName.accept (by rw [hmethod]; rfl)]
  | head => simp only [handleHead, hheader HeaderName.accept (by rw [hmethod]; rfl)]
  | put =>
    have hwritten : writtenContentType first.request = writtenContentType second.request := by
      rw [writtenContentType, writtenContentType, hheader _ (by rw [hmethod]; rfl)]
    dsimp only
    rw [handlePut, handlePut, hwritten, hbody (by rw [hmethod]; rfl)]
  | post =>
    have hwritten : writtenContentType first.request = writtenContentType second.request := by
      rw [writtenContentType, writtenContentType, hheader _ (by rw [hmethod]; rfl)]
    dsimp only
    rw [handlePost, handlePost, hwritten, hbody (by rw [hmethod]; rfl)]
  | delete | options | patch | other => rfl

/-- Requests that are alike are served alike on every store, if the router answers them alike. -/
theorem Alike.serve_eq (h : Alike first second) (authz : AuthzState)
    {routerAnswer : Request → Response}
    (hrouter : routerAnswer first.request = routerAnswer second.request) (store : LdpStore) :
    serve authz routerAnswer store first = serve authz routerAnswer store second := by
  unfold serve buildRouter corsMiddleware authzMiddleware ldpService ldpRouter
  simp only [h.extractCredentials_eq, h.accessMap_eq, h.corsHeaders_eq, h.path, h.handle_eq, hrouter]

end Alike

/-- Headers and bodies that are not read can be changed in every request of a run, and neither the
store at the end nor any answer changes.  The router's own answers depend on methods and paths. -/
theorem serve_alike (authz : AuthzState) {routerAnswer : Request → Response}
    (hrouter : ∀ first second : Request, first.method = second.method → first.path = second.path →
      routerAnswer first = routerAnswer second)
    {arrivals others : List Arrival} (halike : List.Forall₂ Alike arrivals others)
    (store : LdpStore) :
    after (serve authz routerAnswer) store arrivals = after (serve authz routerAnswer) store others ∧
      responses (serve authz routerAnswer) store arrivals =
        responses (serve authz routerAnswer) store others :=
  after_and_responses_of_forall₂ (serve authz routerAnswer)
    (fun _ _ h ↦ h.serve_eq authz (hrouter _ _ h.method h.path)) halike store

/-- The condition of a put that replaces one version only. -/
def ifMatch : HeaderName × HeaderValue :=
  ("if-match".toList, ⟨encode ['"', 'v', '"'], by decide⟩)

/-- A second put with the condition replaces what the first one has stored, which has no version. -/
theorem serve_alike_conditional :
    after (serve knownToken fun _ ↦ StatusCode.notFound.intoResponse) LdpStore.new
        [tokenPut, ⟨⟨.put, "/a".toList, [withToken, ifMatch], some [2]⟩, sampleSlug⟩] =
      after (serve knownToken fun _ ↦ StatusCode.notFound.intoResponse) LdpStore.new
        [tokenPut, ⟨⟨.put, "/a".toList, [withToken], some [2]⟩, sampleSlug⟩] := by
  apply (serve_alike knownToken (fun _ _ _ _ ↦ rfl) ?_ LdpStore.new).1
  refine .cons ⟨rfl, rfl, rfl, rfl, rfl, fun _ _ ↦ rfl, fun _ ↦ rfl⟩
    (.cons ⟨rfl, rfl, rfl, rfl, rfl, ?_, fun _ ↦ rfl⟩ .nil)
  intro name hname
  obtain rfl : HeaderName.contentType = name := Option.some_inj.mp hname
  rfl

end SolidCommunity.ServerCore.Service
