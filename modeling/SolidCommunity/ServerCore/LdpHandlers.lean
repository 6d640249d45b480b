import SolidCommunity.Foundations.PercentDecoding
import SolidCommunity.ServerCore.Http
import SolidCommunity.ServerCore.Store

/-!
# The LDP Request Handlers

Every handler resolves the decoded wildcard capture to a store key and answers from the store.  A
put or post mutates the store before its response is built, so a response that cannot be built
leaves the mutation behind; the requests for which that happens are characterised exactly.
-/

namespace SolidCommunity.ServerCore.LdpHandlers

open Foundations.FiniteMap Foundations.PercentDecoding Foundations.Text Http

/-! ## Helpers -/

/-- Resolve the request path to a store key. -/
def resolvePath : Option Str → Str
  | none => ['/']
  | some [] => ['/']
  | some path => if startsWith path '/' then path else '/' :: path

def notFound (path : Str) : Response :=
  plainTextResponse .notFound ("404 Not Found: ".toList ++ path)

/-- The stored content type cannot satisfy the `Accept` header. -/
def notAcceptable (accept storedContentType : Str) : Response :=
  plainTextResponse .notAcceptable
    ("406 Not Acceptable: cannot serve '".toList ++ storedContentType ++ "' as '".toList ++ accept ++
      "'".toList)

/-- The part of a media type before its parameters. -/
def mediaType (s : Str) : Str := trim (((split s ';').head?).getD s)

/-- Whether one token of an `Accept` header covers a media type. -/
def tokenSatisfied (contentTypeBase token : Str) : Bool :=
  if token = "*/*".toList ∨ token = [] then true
  else
    match stripSuffix token "/*".toList with
    | some major => (major ++ ['/']).isPrefixOf contentTypeBase
    | none => contentTypeBase == token

/-- Whether the stored content type satisfies the `Accept` header. -/
def acceptSatisfied (acceptHeader contentType : Str) : Bool :=
  (split acceptHeader ',').any fun token ↦ tokenSatisfied (mediaType contentType) (mediaType token)

/-- The `Link` header value of a container. -/
def containerLink : HeaderValue :=
  ⟨encode ("<http://www.w3.org/ns/ldp#Container>; rel=\"type\", " ++
    "<http://www.w3.org/ns/ldp#Resource>; rel=\"type\"").toList, by decide⟩

/-- The `Link` header value of a document. -/
def resourceLink : HeaderValue :=
  ⟨encode "<http://www.w3.org/ns/ldp#Resource>; rel=\"type\"".toList, by decide⟩

/-- The methods that the `Allow` header names. -/
def allowedMethods : HeaderValue :=
  ⟨encode "GET, HEAD, PUT, POST, DELETE, OPTIONS, PATCH".toList, by decide⟩

/-- The content type that a write stores. -/
def writtenContentType (request : Request) : Str :=
  (request.headerText HeaderName.contentType).getD "application/octet-stream".toList

/-- The name that `Uuid::new_v4` generates for a new child: hexadecimal digits and dashes. -/
structure Slug where
  text : Str
  length : text.length = 36
  digits : text.all (fun c ↦ (hexValue c).isSome || c == '-') = true

/-- The key of the child that a post to the container creates. -/
def childKey (containerKey : Str) (slug : Slug) : Str :=
  trimEndMatches containerKey '/' ++ '/' :: slug.text

/-! ## Handlers -/

def handleGet (store : LdpStore) (path : Option Str) (request : Request) : Response :=
  let key := resolvePath path
  match store.get key with
  | none => notFound key
  | some entry =>
    match (request.headerText HeaderName.accept).filter (!acceptSatisfied · entry.contentType) with
    | some accept => notAcceptable accept entry.contentType
    | none =>
      (((Builder.new .ok).header HeaderName.contentType (HeaderValue.fromStr entry.contentType)).header
        HeaderName.link
        (some (if entry.isContainer then containerLink else resourceLink))).bodyOrError entry.body

def handleHead (store : LdpStore) (path : Option Str) (request : Request) : Response :=
  let key := resolvePath path
  match store.get key with
  | none => notFound key
  | some entry =>
    match (request.headerText HeaderName.accept).filter (!acceptSatisfied · entry.contentType) with
    | some accept => notAcceptable accept entry.contentType
    | none =>
      let response := (Builder.new .ok).header HeaderName.contentType
        (HeaderValue.fromStr entry.contentType)
      (if entry.isContainer then response.header HeaderName.link (some containerLink)
        else response).bodyOrError []

def handlePut (store : LdpStore) (path : Option Str) (request : Request) : LdpStore × Response :=
  let key := resolvePath path
  let contentType := writtenContentType request
  match request.body with
  | none => (store, StatusCode.badRequest.intoResponse)
  | some body =>
    let (after, created) := store.put key body contentType
    let status := if created then StatusCode.created else StatusCode.noContent
    let response := Builder.new status
    (after, (if LdpStore.isContainer key then response.header HeaderName.link (some containerLink)
      else response).bodyOrError [])

def handlePost (store : LdpStore) (path : Option Str) (slug : Slug) (request : Request) :
    LdpStore × Response :=
  let containerKey := resolvePath path
  let contentType := writtenContentType request
  match request.body with
  | none => (store, StatusCode.badRequest.intoResponse)
  | some body =>
    let child := childKey containerKey slug
    let (after, _) := store.put child body contentType
    (after, ((Builder.new .created).header HeaderName.location
      (HeaderValue.fromStr child)).bodyOrError [])

def handleDelete (store : LdpStore) (path : Option Str) : LdpStore × Response :=
  let key := resolvePath path
  let (after, existed) := store.delete key
  (after, if existed then StatusCode.noContent.intoResponse else notFound key)

def handleOptions : Response :=
  ((Builder.new .noContent).header HeaderName.allow (some allowedMethods)).bodyOrError []

def handlePatch : Response :=
  plainTextResponse .unsupportedMediaType "415 Unsupported patch Content-Type".toList

/-- The method table of both routes, which has no handler for any other method. -/
def handle (store : LdpStore) (path : Option Str) (slug : Slug) (request : Request) :
    Option (LdpStore × Response) :=
  match request.method with
  | .get => some (store, handleGet store path request)
  | .head => some (store, handleHead store path request)
  | .put => some (handlePut store path request)
  | .post => some (handlePost store path slug request)
  | .delete => some (handleDelete store path)
  | .options => some (store, handleOptions)
  | .patch => some (store, handlePatch)
  | .other => none

/-! ## Statuses -/

theorem status_bodyOrError (builder : Builder) (body : Bytes) :
    (builder.bodyOrError body).status =
      (builder.map (·.status)).getD StatusCode.internalServerError := by
  cases builder <;> rfl

/-- A response built from a success stays one, unless a header value is invalid. -/
theorem status_bodyOrError_of_ok {builder : Builder} (body : Bytes)
    (h : ∀ response ∈ builder, response.status = StatusCode.ok) :
    (builder.bodyOrError body).status = StatusCode.ok ∨
      (builder.bodyOrError body).status = StatusCode.internalServerError := by
  rw [status_bodyOrError]
  cases builder with
  | none => exact .inr rfl
  | some response => exact .inl (h response rfl)

theorem status_new : ∀ response ∈ Builder.new StatusCode.ok, response.status = StatusCode.ok := by
  intro response hresponse
  obtain rfl := Option.some_inj.mp hresponse
  rfl

theorem status_header {builder : Builder} (h : ∀ response ∈ builder, response.status = StatusCode.ok)
    (name : HeaderName) (value : Option HeaderValue) :
    ∀ response ∈ builder.header name value, response.status = StatusCode.ok := by
  intro response hresponse
  obtain ⟨before, hbefore, hmap⟩ := Option.bind_eq_some_iff.mp hresponse
  obtain ⟨valid, -, rfl⟩ := Option.map_eq_some_iff.mp hmap
  exact h before hbefore

/-- The statuses with which a get or a head answers for a stored key, and for an absent one. -/
def ReadStatus (stored : Prop) (status : StatusCode) : Prop :=
  (stored ∧ (status = StatusCode.ok ∨ status = StatusCode.notAcceptable ∨
    status = StatusCode.internalServerError)) ∨ (¬ stored ∧ status = StatusCode.notFound)

/-- A handler that misses absent keys and finds stored ones. -/
theorem readStatus_of_lookup {store : LdpStore} {key : Str} {status : StatusCode}
    (habsent : store.lookup key = none → status = StatusCode.notFound)
    (hstored : ∀ entry, store.lookup key = some entry → status = StatusCode.ok ∨
      status = StatusCode.notAcceptable ∨ status = StatusCode.internalServerError) :
    ReadStatus (key ∈ store) status := by
  rw [← Finmap.lookup_isSome]
  cases hentry : store.lookup key with
  | none => exact .inr ⟨Bool.noConfusion, habsent hentry⟩
  | some entry => exact .inl ⟨rfl, hstored entry hentry⟩

theorem readStatus_handleGet (store : LdpStore) (path : Option Str) (request : Request) :
    ReadStatus (LdpStore.key (resolvePath path) ∈ store) (handleGet store path request).status := by
  apply readStatus_of_lookup
  · intro hentry
    simp only [handleGet, LdpStore.get, hentry]
    rfl
  · intro entry hentry
    simp only [handleGet, LdpStore.get, hentry]
    split
    · exact .inr (.inl rfl)
    · apply (status_bodyOrError_of_ok entry.body _).imp_right .inr
      exact status_header (status_header status_new _ _) _ _

theorem readStatus_handleHead (store : LdpStore) (path : Option Str) (request : Request) :
    ReadStatus (LdpStore.key (resolvePath path) ∈ store) (handleHead store path request).status := by
  apply readStatus_of_lookup
  · intro hentry
    simp only [handleHead, LdpStore.get, hentry]
    rfl
  · intro entry hentry
    simp only [handleHead, LdpStore.get, hentry]
    split
    · exact .inr (.inl rfl)
    · apply (status_bodyOrError_of_ok [] _).imp_right .inr
      split
      · exact status_header (status_header status_new _ _) _ _
      · exact status_header status_new _ _

/-- The status of a put whose body can be read. -/
theorem status_handlePut {store : LdpStore} {path : Option Str} {request : Request} {body : Bytes}
    (hbody : request.body = some body) :
    (handlePut store path request).2.status =
      if (store.put (resolvePath path) body (writtenContentType request)).2 then StatusCode.created
      else StatusCode.noContent := by
  simp only [handlePut, hbody, status_bodyOrError]
  split <;> rfl

/-- A put whose body can be read reports success. -/
theorem status_handlePut_lt {store : LdpStore} {path : Option Str} {request : Request} {body : Bytes}
    (hbody : request.body = some body) : (handlePut store path request).2.status < 400 := by
  rw [status_handlePut hbody]
  split <;> decide

/-- The characters of a slug are not control characters. -/
theorem any_isControl_slug (slug : Slug) : slug.text.any isControl = false := by
  rw [List.any_eq_false]
  intro c hc
  have hdigit := List.all_eq_true.mp slug.digits c hc
  have hrange : 45 ≤ c.toNat ∧ c.toNat < 127 := by
    rw [Bool.or_eq_true, beq_iff_eq] at hdigit
    rcases hdigit with hhex | rfl
    · exact toNat_of_isSome_hexValue hhex
    · decide
  have hne : c ≠ '\t' := by
    rintro rfl
    exact absurd hrange.1 (by decide)
  simp [isControl]
  omega

/-- The child's key contains a control character exactly when the target does. -/
theorem any_isControl_childKey (containerKey : Str) (slug : Slug) :
    (childKey containerKey slug).any isControl = containerKey.any isControl := by
  have hslash : isControl '/' = false := rfl
  rw [childKey, List.any_append, List.any_cons, any_isControl_slug, hslash,
    any_trimEndMatches hslash]
  simp

/-- A post whose body can be read fails exactly when the target contains a control character. -/
theorem status_handlePost {store : LdpStore} {path : Option Str} {slug : Slug} {request : Request}
    {body : Bytes} (hbody : request.body = some body) :
    (handlePost store path slug request).2.status =
      if (resolvePath path).any isControl then StatusCode.internalServerError
      else StatusCode.created := by
  have hvalid := isSome_fromStr (childKey (resolvePath path) slug)
  rw [any_isControl_childKey] at hvalid
  simp only [handlePost, hbody, status_bodyOrError]
  cases hcontrol : (resolvePath path).any isControl with
  | true =>
    have hnone : HeaderValue.fromStr (childKey (resolvePath path) slug) = none := by
      simpa [hcontrol] using hvalid
    simp [hnone, Builder.header, Builder.new]
  | false =>
    obtain ⟨value, hvalue⟩ : ∃ value,
        HeaderValue.fromStr (childKey (resolvePath path) slug) = some value :=
      Option.isSome_iff_exists.mp (by simpa [hcontrol] using hvalid)
    simp [hvalue, Builder.header, Builder.new, StatusCode.intoResponse]

/-! ## Head requests -/

/-- A head has the status and the headers of the get. -/
def MirrorsGet (store : LdpStore) (path : Option Str) (request : Request) : Prop :=
  (handleHead store path request).status = (handleGet store path request).status ∧
    (handleHead store path request).headers = (handleGet store path request).headers

instance (store : LdpStore) (path : Option Str) (request : Request) :
    Decidable (MirrorsGet store path request) :=
  inferInstanceAs (Decidable (_ ∧ _))

/-- Both handlers negotiate and fail alike, but only the get attaches a link to a document. -/
theorem mirrorsGet_iff (store : LdpStore) (path : Option Str) (request : Request) :
    MirrorsGet store path request ↔
      ∀ entry ∈ store.get (resolvePath path), entry.isContainer = true ∨
        (∃ accept ∈ request.headerText HeaderName.accept,
          acceptSatisfied accept entry.contentType = false) ∨
        HeaderValue.fromStr entry.contentType = none := by
  cases hentry : store.get (resolvePath path) with
  | none => simp [MirrorsGet, handleHead, handleGet, hentry]
  | some entry =>
    simp only [Option.mem_some_iff, forall_eq']
    cases hrefused : (request.headerText HeaderName.accept).filter
        (!acceptSatisfied · entry.contentType) with
    | some accept =>
      -- Both answer 406.
      obtain ⟨haccept, hrefuses⟩ := Option.filter_eq_some_iff.mp hrefused
      have hrefuses : acceptSatisfied accept entry.contentType = false := by simpa using hrefuses
      simp only [MirrorsGet, handleHead, handleGet, hentry, hrefused, and_self, true_iff]
      exact .inr (.inl ⟨accept, haccept, hrefuses⟩)
    | none =>
      have hserved : ¬ ∃ accept ∈ request.headerText HeaderName.accept,
          acceptSatisfied accept entry.contentType = false := by
        rintro ⟨accept, haccept, hrefuses⟩
        have hkept := Option.filter_eq_none_iff.mp hrefused accept haccept
        simp [hrefuses] at hkept
      rw [or_iff_right hserved]
      simp only [MirrorsGet, handleHead, handleGet, hentry, hrefused]
      cases entry.isContainer <;> cases HeaderValue.fromStr entry.contentType <;>
        simp [Builder.new, Builder.header, Builder.bodyOrError]

/-- A head of a document says nothing of its kind. -/
theorem not_mirrorsGet_document :
    ¬ MirrorsGet (LdpStore.new.put "/card".toList [104, 105] "text/turtle".toList).1
        (some "card".toList) ⟨.head, "/card".toList, [], none⟩ := by
  decide

/-! ## Failed requests -/

/-- When the response reports a failure, the store is as it was. -/
def FailureIsInert (store : LdpStore) (path : Option Str) (slug : Slug) (request : Request) : Prop :=
  ∀ result ∈ handle store path slug request, 400 ≤ result.2.status → result.1 = store

instance (store : LdpStore) (path : Option Str) (slug : Slug) (request : Request) :
    Decidable (FailureIsInert store path slug request) :=
  inferInstanceAs (Decidable (∀ result ∈ handle store path slug request,
    400 ≤ result.2.status → result.1 = store))

/-- The store already holds exactly what a put would write, and all its ancestors. -/
def AlreadyStored (store : LdpStore) (path : Str) (body : Bytes) (contentType : Str) : Prop :=
  (∀ ancestor ∈ LdpStore.ancestorKeys (LdpStore.key path), ancestor ∈ store) ∧
    store.lookup (LdpStore.key path) =
      some ⟨body, contentType, endsWith (LdpStore.key path) '/'⟩

/-- A failed put has not reached the store. -/
theorem handlePut_of_failure {store : LdpStore} {path : Option Str} {request : Request}
    (hstatus : 400 ≤ (handlePut store path request).2.status) :
    (handlePut store path request).1 = store := by
  cases hbody : request.body with
  | none => simp [handlePut, hbody]
  | some body => exact absurd hstatus (Nat.not_le.mpr (status_handlePut_lt hbody))

/-- A failed deletion found nothing to delete. -/
theorem handleDelete_of_failure {store : LdpStore} {path : Option Str}
    (hstatus : 400 ≤ (handleDelete store path).2.status) : (handleDelete store path).1 = store := by
  by_cases hstored : LdpStore.key (resolvePath path) ∈ store
  · simp [handleDelete, LdpStore.delete, hstored, StatusCode.intoResponse] at hstatus
  · exact erase_eq_self hstored

/-- A failed post left the store alone if its body was unreadable, its failure came from elsewhere,
or its child was there already. -/
theorem handlePost_of_failure_iff {store : LdpStore} {path : Option Str} {slug : Slug}
    {request : Request} :
    (400 ≤ (handlePost store path slug request).2.status →
        (handlePost store path slug request).1 = store) ↔
      ∀ body ∈ request.body, (resolvePath path).any isControl = true →
        AlreadyStored store (childKey (resolvePath path) slug) body
          (writtenContentType request) := by
  cases hbody : request.body with
  | none => simp [handlePost, hbody]
  | some body =>
    have hafter : (handlePost store path slug request).1 =
        (store.put (childKey (resolvePath path) slug) body (writtenContentType request)).1 := by
      simp only [handlePost, hbody]
    rw [hafter, status_handlePost hbody, LdpStore.put_eq_self_iff]
    cases (resolvePath path).any isControl <;> simp [AlreadyStored]

/-- Failed requests leave the store alone, except the posts whose target contains a control
character and whose child is not stored already. -/
theorem failureIsInert_iff (store : LdpStore) (path : Option Str) (slug : Slug) (request : Request) :
    FailureIsInert store path slug request ↔
      (request.method = .post → ∀ body ∈ request.body, (resolvePath path).any isControl = true →
        AlreadyStored store (childKey (resolvePath path) slug) body
          (writtenContentType request)) := by
  unfold FailureIsInert handle
  cases request.method with
  | post => simpa using handlePost_of_failure_iff
  | put => simpa using handlePut_of_failure
  | delete => simpa using handleDelete_of_failure
  | get | head | options | patch | other => simp

/-- A post to a container named with a line feed answers 500 and stores the child. -/
theorem not_failureIsInert_post :
    ¬ FailureIsInert LdpStore.new (some "a\n/".toList)
        ⟨"67e55044-10b1-426f-9247-bb680e5fe0c8".toList, rfl, by decide⟩
        ⟨.post, "/a%0A/".toList, [], some [104, 105]⟩ := by
  decide

end SolidCommunity.ServerCore.LdpHandlers
