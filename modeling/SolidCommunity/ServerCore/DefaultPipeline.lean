import SolidCommunity.ServerCore.RequestPipeline

/-!
# The Default Pipeline

The default wiring reports every requested mode as permitted and approves every request, so the
pipeline is its route table with CORS headers.  In particular nothing sets the access control
documents apart from other resources.
-/

namespace SolidCommunity.ServerCore.DefaultPipeline

open Foundations.FiniteMap Foundations.Text Http LdpHandlers Pipeline RequestPipeline Routing

def passThroughAuthorizer : Authorizer := fun _ _ _ ↦ .ok ()

/-- Every requested mode is permitted. -/
def passThroughPermissionReader : PermissionReader := fun _ requestedModes ↦
  some (ofFinset requestedModes.keys fun resource ↦
    ofFinset ((requestedModes.lookup resource).getD ∅) fun _ ↦ true)

/-- The authorisation of `RequestPipeline::default`. -/
def defaultAuthz : AuthzState where
  permissionReader := passThroughPermissionReader
  authorizer := passThroughAuthorizer

theorem approved_default (request : Request) : Approved defaultAuthz request :=
  ⟨_, rfl, rfl⟩

/-- The default pipeline serves every request from the route table. -/
theorem buildRouter_default (routerAnswer : Request → Response) (slug : Slug) (store : LdpStore)
    (request : Request) :
    buildRouter defaultAuthz routerAnswer slug store request =
      corsMiddleware (ldpService routerAnswer slug) request none store :=
  buildRouter_of_approved (approved_default request) routerAnswer slug store

/-- A get that reaches the handler is answered with the handler's status and body. -/
theorem buildRouter_default_get (routerAnswer : Request → Response) (slug : Slug)
    (store : LdpStore) {request : Request} (hmethod : request.method = .get) {path : Option Str}
    (hcapture : capture request.path = some path) :
    (buildRouter defaultAuthz routerAnswer slug store request).2.status =
        (handleGet store path request).status ∧
      (buildRouter defaultAuthz routerAnswer slug store request).2.body =
        (handleGet store path request).body := by
  rw [buildRouter_default]
  simp [corsMiddleware, ldpService, ldpRouter, hcapture, handle, hmethod]

/-! ## Access control documents -/

/-- The request is answered 401, with a body that the entry stored under the key does not
influence. -/
def Guarded (routerAnswer : Request → Response) (slug : Slug) (store : LdpStore) (key : Str)
    (request : Request) : Prop :=
  (buildRouter defaultAuthz routerAnswer slug store request).2.status = StatusCode.unauthorized ∧
    ∀ entry : Entry,
      (buildRouter defaultAuthz routerAnswer slug (store.insert key entry) request).2.body =
        (buildRouter defaultAuthz routerAnswer slug store request).2.body

/-- An anonymous get of a stored access control document. -/
structure AnonymousAclGet (store : LdpStore) (key : Str) (request : Request) : Prop where
  stored : key ∈ store
  acl : ".acl".toList <:+ key
  method : request.method = .get
  anonymous : request.headers.get HeaderName.authorization = none
  names : ∃ path, capture request.path = some path ∧ accessedKey path = key

/-- A get never asks for credentials. -/
theorem status_handleGet_ne_unauthorized (store : LdpStore) (path : Option Str)
    (request : Request) : (handleGet store path request).status ≠ StatusCode.unauthorized := by
  rcases readStatus_handleGet store path request with ⟨-, hstatus | hstatus | hstatus⟩ | ⟨-, hstatus⟩
  all_goals
    rw [hstatus]
    decide

/-- In no state does the default pipeline guard an access control document from an anonymous get. -/
theorem not_guarded_of_anonymousAclGet (routerAnswer : Request → Response) (slug : Slug)
    {store : LdpStore} {key : Str} {request : Request} (h : AnonymousAclGet store key request) :
    ¬ Guarded routerAnswer slug store key request := by
  obtain ⟨path, hcapture, -⟩ := h.names
  rintro ⟨hstatus, -⟩
  rw [(buildRouter_default_get routerAnswer slug store h.method hcapture).1] at hstatus
  exact status_handleGet_ne_unauthorized store path request hstatus

/-- The store after a put of an access control document through the default pipeline. -/
def storeWithAcl : LdpStore :=
  (buildRouter defaultAuthz (fun _ ↦ StatusCode.notFound.intoResponse)
    ⟨"67e55044-10b1-426f-9247-bb680e5fe0c8".toList, rfl, by decide⟩ LdpStore.new
    ⟨.put, "/x.acl".toList, [], some [1, 2]⟩).1

/-- That document is not guarded from a get without any header. -/
theorem not_guarded_of_anonymousAclGet_x :
    ¬ Guarded (fun _ ↦ StatusCode.notFound.intoResponse)
      ⟨"67e55044-10b1-426f-9247-bb680e5fe0c8".toList, rfl, by decide⟩ storeWithAcl
      "/x.acl".toList ⟨.get, "/x.acl".toList, [], some []⟩ :=
  not_guarded_of_anonymousAclGet _ _
    ⟨by decide, by decide, rfl, rfl, some "x.acl".toList, by decide, by decide⟩

/-- The get is answered 200, with the body that was put. -/
theorem served_aclDocument_x :
    AnonymousAclGet storeWithAcl "/x.acl".toList ⟨.get, "/x.acl".toList, [], some []⟩ ∧
      (buildRouter defaultAuthz (fun _ ↦ StatusCode.notFound.intoResponse)
        ⟨"67e55044-10b1-426f-9247-bb680e5fe0c8".toList, rfl, by decide⟩ storeWithAcl
        ⟨.get, "/x.acl".toList, [], some []⟩).2.body = [1, 2] ∧
      ¬ Guarded (fun _ ↦ StatusCode.notFound.intoResponse)
        ⟨"67e55044-10b1-426f-9247-bb680e5fe0c8".toList, rfl, by decide⟩ storeWithAcl
        "/x.acl".toList ⟨.get, "/x.acl".toList, [], some []⟩ := by
  refine ⟨⟨by decide, by decide, rfl, rfl, some "x.acl".toList, by decide, by decide⟩, by decide, ?_⟩
  rintro ⟨hstatus, -⟩
  exact absurd hstatus (by decide)

end SolidCommunity.ServerCore.DefaultPipeline
