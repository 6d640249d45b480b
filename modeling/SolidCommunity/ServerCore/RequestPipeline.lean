import SolidCommunity.ServerCore.Mutation
import SolidCommunity.ServerCore.Pipeline

/-!
# The Request Pipeline

The pipeline wraps the route table in two layers: the outer one extracts the credentials and adds
the CORS headers, and the inner one asks the permission reader and the authoriser before the route
table sees the request.  A rejection is answered without the store, and a request that changes the
store was approved for writing.
-/

namespace SolidCommunity.ServerCore.RequestPipeline

open Foundations.FiniteMap Foundations.Runs Foundations.Text Http LdpHandlers Pipeline Routing

/-! ## Credentials and permissions -/

/-- The error conditions of the server. -/
inductive SolidError where
  | notModified
  | badRequest (message : Str)
  | unauthorized (message : Str)
  | forbidden (message : Str)
  | notFound (message : Str)
  | methodNotAllowed (message : Str)
  | notAcceptable (message : Str)
  | conflict (message : Str)
  | gone (message : Str)
  | preconditionFailed (message : Str)
  | unsupportedMediaType (message : Str)
  | unprocessableEntity (message : Str)
  | internal (message : Str)
  | notImplemented (message : Str)
  | serviceUnavailable (message : Str)

/-- The text that the error displays as. -/
def SolidError.display : SolidError → Str
  | notModified => "304 Not Modified".toList
  | badRequest message => "400 Bad Request: ".toList ++ message
  | unauthorized message => "401 Unauthorized: ".toList ++ message
  | forbidden message => "403 Forbidden: ".toList ++ message
  | notFound message => "404 Not Found: ".toList ++ message
  | methodNotAllowed message => "405 Method Not Allowed: ".toList ++ message
  | notAcceptable message => "406 Not Acceptable: ".toList ++ message
  | conflict message => "409 Conflict: ".toList ++ message
  | gone message => "410 Gone: ".toList ++ message
  | preconditionFailed message => "412 Precondition Failed: ".toList ++ message
  | unsupportedMediaType message => "415 Unsupported Media Type: ".toList ++ message
  | unprocessableEntity message => "422 Unprocessable Entity: ".toList ++ message
  | internal message => "500 Internal Server Error: ".toList ++ message
  | notImplemented message => "501 Not Implemented: ".toList ++ message
  | serviceUnavailable message => "503 Service Unavailable: ".toList ++ message

/-- The credentials that the middleware passes on. -/
structure Credentials where
  agent : Option Str
  issuer : Option Str

/-- The access modes permitted for each resource. -/
abbrev PermissionMap := HashMap ResourceIdentifier (HashMap AccessMode Bool)

/-- `PermissionReader::read`, undefined when it fails; the error is only logged. -/
abbrev PermissionReader := Credentials → AccessMap → Option PermissionMap

/-- `Authorizer::authorize`. -/
abbrev Authorizer := Credentials → AccessMap → PermissionMap → Except SolidError Unit

structure AuthzState where
  permissionReader : PermissionReader
  authorizer : Authorizer

/-- The bearer token of the request, if any, as the agent. -/
def extractCredentials (request : Request) : Credentials where
  agent := (request.headerText HeaderName.authorization).bind (stripPrefix · "Bearer ".toList)
  issuer := none

/-! ## The layers -/

/-- A layer of the pipeline: it serves a request, with the credentials attached to it so far, on the
store. -/
abbrev Service := Request → Option Credentials → LdpStore → LdpStore × Response

/-- The route table, which answers on its own when no handler runs. -/
def ldpService (routerAnswer : Request → Response) (slug : Slug) : Service :=
  fun request _ store ↦ (ldpRouter store slug request).getD (store, routerAnswer request)

/-- The challenge of the authentication scheme. -/
def bearer : HeaderValue := ⟨encode "Bearer".toList, by decide⟩

/-- The response to a request that the authoriser rejects. -/
def denied (error : SolidError) : Response :=
  let response := plainTextResponse .unauthorized ("401 Unauthorized: ".toList ++ error.display)
  { response with headers := response.headers.insert HeaderName.wwwAuthenticate bearer }

def authzMiddleware (authz : AuthzState) (next : Service) : Service :=
  fun request extension store ↦
    let credentials := extension.getD ⟨none, none⟩
    match authz.permissionReader credentials (accessMap request) with
    | none => (store, StatusCode.internalServerError.intoResponse)
    | some permissions =>
      match authz.authorizer credentials (accessMap request) permissions with
      | .error error => (store, denied error)
      | .ok () => next request extension store

def anyOrigin : HeaderValue := ⟨encode "*".toList, by decide⟩

/-- The request headers that a cross-origin script may send. -/
def allowedHeaders : HeaderValue :=
  ⟨encode ("Authorization, Content-Type, If-Match, If-None-Match, " ++
    "If-Modified-Since, If-Unmodified-Since").toList, by decide⟩

/-- The response headers that a cross-origin script may read. -/
def exposedHeaders : HeaderValue :=
  ⟨encode "ETag, Last-Modified, Location, Link, WAC-Allow".toList, by decide⟩

/-- The headers of a response on its way out. -/
def corsHeaders (request : Request) (headers : HeaderMap) : HeaderMap :=
  ((headers.insert HeaderName.accessControlAllowOrigin
    ((request.headers.get HeaderName.origin).getD anyOrigin)).insert
    HeaderName.accessControlAllowHeaders allowedHeaders).insert
    HeaderName.accessControlExposeHeaders exposedHeaders

def corsMiddleware (next : Service) : Service :=
  fun request _ store ↦
    let (after, response) := next request (some (extractCredentials request)) store
    (after, { response with headers := corsHeaders request response.headers })

/-- `RequestPipeline::build_router`, serving one request.  The router's own answers are a parameter,
and so is the name that a post draws for its child. -/
def buildRouter (authz : AuthzState) (routerAnswer : Request → Response) (slug : Slug)
    (store : LdpStore) (request : Request) : LdpStore × Response :=
  corsMiddleware (authzMiddleware authz (ldpService routerAnswer slug)) request none store

/-! ## Decisions -/

/-- The permission reader fails, or the authoriser rejects the request. -/
def Rejected (authz : AuthzState) (request : Request) : Prop :=
  authz.permissionReader (extractCredentials request) (accessMap request) = none ∨
    ∃ permissions error,
      authz.permissionReader (extractCredentials request) (accessMap request) = some permissions ∧
        authz.authorizer (extractCredentials request) (accessMap request) permissions = .error error

/-- The authoriser approves the permissions that the reader returned. -/
def Approved (authz : AuthzState) (request : Request) : Prop :=
  ∃ permissions,
    authz.permissionReader (extractCredentials request) (accessMap request) = some permissions ∧
      authz.authorizer (extractCredentials request) (accessMap request) permissions = .ok ()

theorem approved_or_rejected (authz : AuthzState) (request : Request) :
    Approved authz request ∨ Rejected authz request := by
  cases hread : authz.permissionReader (extractCredentials request) (accessMap request) with
  | none => exact .inr (.inl hread)
  | some permissions =>
    cases hdecision : authz.authorizer (extractCredentials request) (accessMap request)
        permissions with
    | error error => exact .inr (.inr ⟨permissions, error, hread, hdecision⟩)
    | ok _ => exact .inl ⟨permissions, hread, hdecision⟩

/-- An approved request is served by the route table. -/
theorem buildRouter_of_approved {authz : AuthzState} {request : Request}
    (h : Approved authz request) (routerAnswer : Request → Response) (slug : Slug)
    (store : LdpStore) :
    buildRouter authz routerAnswer slug store request =
      corsMiddleware (ldpService routerAnswer slug) request none store := by
  obtain ⟨permissions, hread, hdecision⟩ := h
  simp only [buildRouter, corsMiddleware, authzMiddleware, Option.getD_some, hread, hdecision]

/-- A rejected request has one response, whatever the store, and leaves the store alone. -/
theorem exists_response_of_rejected {authz : AuthzState} {request : Request}
    (h : Rejected authz request) :
    ∃ response, ∀ routerAnswer slug store,
      buildRouter authz routerAnswer slug store request = (store, response) := by
  unfold buildRouter corsMiddleware authzMiddleware
  rcases h with hread | ⟨permissions, error, hread, hdecision⟩
  · simp only [Option.getD_some, hread]
    exact ⟨_, fun _ _ _ ↦ rfl⟩
  · simp only [Option.getD_some, hread, hdecision]
    exact ⟨_, fun _ _ _ ↦ rfl⟩

/-! ## Mediation -/

/-- The requests that may change the store are the ones that require writing. -/
theorem accessMode_of_isSome_mutation (handled : HandledRequest)
    (h : handled.mutation.isSome = true) : accessMode handled.request.method = .write := by
  unfold HandledRequest.mutation at h
  cases hmethod : handled.request.method <;> simp_all [accessMode]

/-- A route table that changes the store received a request that requires writing. -/
theorem accessMode_of_ldpService {routerAnswer : Request → Response} {slug : Slug}
    {request : Request} {store : LdpStore} (extension : Option Credentials)
    (h : (ldpService routerAnswer slug request extension store).1 ≠ store) :
    accessMode request.method = .write := by
  unfold ldpService at h
  cases hroute : ldpRouter store slug request with
  | none => simp [hroute] at h
  | some result =>
    obtain ⟨path, -, hhandle⟩ := Option.bind_eq_some_iff.mp hroute
    rw [hroute, Option.getD_some, store_of_handle hhandle] at h
    apply accessMode_of_isSome_mutation ⟨path, slug, request⟩
    cases hmutation : HandledRequest.mutation ⟨path, slug, request⟩ with
    | none => simp [hmutation] at h
    | some mutation => rfl

theorem lookup_accessMap (request : Request) :
    (accessMap request).lookup ⟨request.path⟩ = some {accessMode request.method} := by
  rw [accessMap, Finmap.lookup_insert]

/-- A request that the reader or the authoriser turns away is answered alike on every two stores and
changes neither; a request that changes the store was approved with an access map that requires
writing for its path. -/
theorem mediation (authz : AuthzState) (routerAnswer : Request → Response) (request : Request) :
    (Rejected authz request → ∀ (first second : LdpStore) (slug slug' : Slug),
      (buildRouter authz routerAnswer slug first request).2 =
          (buildRouter authz routerAnswer slug' second request).2 ∧
        (buildRouter authz routerAnswer slug first request).1 = first ∧
        (buildRouter authz routerAnswer slug' second request).1 = second) ∧
      ∀ (store : LdpStore) (slug : Slug),
        (buildRouter authz routerAnswer slug store request).1 ≠ store →
        ∃ permissions modes,
          authz.permissionReader (extractCredentials request) (accessMap request) =
              some permissions ∧
            authz.authorizer (extractCredentials request) (accessMap request) permissions =
              .ok () ∧
            (accessMap request).lookup ⟨request.path⟩ = some modes ∧ AccessMode.write ∈ modes := by
  constructor
  · intro hrejected first second slug slug'
    obtain ⟨response, hresponse⟩ := exists_response_of_rejected hrejected
    rw [hresponse, hresponse]
    exact ⟨rfl, rfl, rfl⟩
  · intro store slug hchanged
    rcases approved_or_rejected authz request with happroved | hrejected
    · have hmode : accessMode request.method = .write := by
        rw [buildRouter_of_approved happroved] at hchanged
        exact accessMode_of_ldpService (some (extractCredentials request)) hchanged
      obtain ⟨permissions, hread, hdecision⟩ := happroved
      exact ⟨permissions, _, hread, hdecision, lookup_accessMap request,
        Finset.mem_singleton.mpr hmode.symm⟩
    · obtain ⟨response, hresponse⟩ := exists_response_of_rejected hrejected
      rw [hresponse] at hchanged
      exact absurd rfl hchanged

/-- An authoriser that knows one bearer token. -/
def knownToken : AuthzState where
  permissionReader := fun _ _ ↦ some ∅
  authorizer := fun credentials _ _ ↦
    if credentials.agent = some ['t'] then .ok () else .error (.unauthorized [])

/-- An anonymous put is turned away from two stores alike, and one with the token was approved. -/
theorem mediation_knownToken :
    (buildRouter knownToken (fun _ ↦ StatusCode.notFound.intoResponse)
          ⟨"67e55044-10b1-426f-9247-bb680e5fe0c8".toList, rfl, by decide⟩ LdpStore.new
          ⟨.put, "/a".toList, [], some [1]⟩).2 =
        (buildRouter knownToken (fun _ ↦ StatusCode.notFound.intoResponse)
          ⟨"67e55044-10b1-426f-9247-bb680e5fe0c8".toList, rfl, by decide⟩ ∅
          ⟨.put, "/a".toList, [], some [1]⟩).2 ∧
      ∃ modes, (accessMap ⟨.put, "/a".toList,
          [(HeaderName.authorization, ⟨encode "Bearer t".toList, by decide⟩)], some [1]⟩).lookup
            ⟨"/a".toList⟩ = some modes ∧ AccessMode.write ∈ modes := by
  constructor
  · exact ((mediation knownToken _ ⟨.put, "/a".toList, [], some [1]⟩).1
      (.inr ⟨∅, .unauthorized [], rfl, rfl⟩) LdpStore.new ∅ _ _).1
  · obtain ⟨permissions, modes, -, -, hmodes⟩ :=
      (mediation knownToken (fun _ ↦ StatusCode.notFound.intoResponse) ⟨.put, "/a".toList,
        [(HeaderName.authorization, ⟨encode "Bearer t".toList, by decide⟩)], some [1]⟩).2
        LdpStore.new ⟨"67e55044-10b1-426f-9247-bb680e5fe0c8".toList, rfl, by decide⟩ (by decide)
    exact ⟨modes, hmodes⟩

end SolidCommunity.ServerCore.RequestPipeline
