import SolidCommunity.Foundations.Runs
import SolidCommunity.ServerCore.LdpHandlers

/-!
# The Mutations behind the Requests

A handler changes the store by at most one call of `put` or `delete`, which the request alone
determines.  Runs of requests are therefore runs of mutations, and an invariant of the two mutating
calls is an invariant of every run of requests.
-/

namespace SolidCommunity.ServerCore

open Foundations.FiniteMap Foundations.Runs Foundations.Text Http LdpHandlers

/-- A mutating call of the store. -/
inductive Mutation where
  | put (path : Str) (body : Bytes) (contentType : Str)
  | delete (path : Str)

def Mutation.apply (store : LdpStore) : Mutation → LdpStore
  | put path body contentType => (LdpStore.put store path body contentType).1
  | delete path => (LdpStore.delete store path).1

/-- Every call can be made in every state. -/
def mutationStep (store : LdpStore) (mutation : Mutation) : Option LdpStore :=
  some (mutation.apply store)

/-- A request as its handler receives it: the wildcard capture, and the slug that a post draws. -/
structure HandledRequest where
  path : Option Str
  slug : Slug
  request : Request

namespace HandledRequest

/-- The call by which the request's handler changes the store. -/
def mutation (handled : HandledRequest) : Option Mutation :=
  match handled.request.method with
  | .put => handled.request.body.map fun body ↦
    .put (resolvePath handled.path) body (writtenContentType handled.request)
  | .post => handled.request.body.map fun body ↦
    .put (childKey (resolvePath handled.path) handled.slug) body
      (writtenContentType handled.request)
  | .delete => some (.delete (resolvePath handled.path))
  | _ => none

/-- The store after the request, which stays as it is when there is no handler for the method. -/
def store (handled : HandledRequest) (store : LdpStore) : LdpStore :=
  ((handle store handled.path handled.slug handled.request).map (·.1)).getD store

end HandledRequest

/-- Every request can be made in every state. -/
def requestStep (store : LdpStore) (handled : HandledRequest) : Option LdpStore :=
  some (handled.store store)

/-- A handler does to the store what its mutation does. -/
theorem store_of_handle {store : LdpStore} {path : Option Str} {slug : Slug} {request : Request}
    {result : LdpStore × Response} (h : handle store path slug request = some result) :
    result.1 = ((HandledRequest.mutation ⟨path, slug, request⟩).map (·.apply store)).getD store := by
  unfold handle at h
  unfold HandledRequest.mutation
  cases hmethod : request.method with
  | put =>
    simp only [hmethod, Option.some_inj] at h ⊢
    cases hbody : request.body <;> simp [← h, handlePut, hbody, Mutation.apply]
  | post =>
    simp only [hmethod, Option.some_inj] at h ⊢
    cases hbody : request.body <;> simp [← h, handlePost, hbody, Mutation.apply]
  | delete =>
    simp only [hmethod, Option.some_inj] at h ⊢
    simp [← h, handleDelete, Mutation.apply]
  | get | head | options | patch =>
    simp only [hmethod, Option.some_inj] at h ⊢
    simp [← h]
  | other => simp [hmethod] at h

theorem HandledRequest.store_eq (handled : HandledRequest) (store : LdpStore) :
    handled.store store = (handled.mutation.map (·.apply store)).getD store := by
  unfold HandledRequest.store
  cases hresult : handle store handled.path handled.slug handled.request with
  | some result => exact store_of_handle hresult
  | none =>
    have hmethod : handled.request.method = .other := by
      cases hmethod : handled.request.method <;> simp [handle, hmethod] at hresult
      rfl
    simp [HandledRequest.mutation, hmethod]

/-- A request leaves the store as it is, or makes its one mutation. -/
theorem HandledRequest.store_cases (handled : HandledRequest) (store : LdpStore) :
    (handled.mutation = none ∧ handled.store store = store) ∨
      ∃ mutation, handled.mutation = some mutation ∧
        handled.store store = mutation.apply store := by
  rw [handled.store_eq]
  cases handled.mutation with
  | none => exact .inl ⟨rfl, rfl⟩
  | some mutation => exact .inr ⟨mutation, rfl, rfl⟩

/-- Only a delete request deletes, and only the key of its own path. -/
theorem HandledRequest.mutation_eq_delete {handled : HandledRequest} {path : Str}
    (h : handled.mutation = some (.delete path)) :
    handled.request.method = .delete ∧ path = resolvePath handled.path := by
  unfold HandledRequest.mutation at h
  cases hmethod : handled.request.method <;> simp_all

/-- What both mutating calls preserve, every request preserves. -/
theorem invariant_of_mutations {invariant : LdpStore → Prop}
    (h : ∀ store mutation, invariant store → invariant (Mutation.apply store mutation))
    {store : LdpStore} (hstore : invariant store) (handled : HandledRequest) :
    invariant (handled.store store) := by
  rcases handled.store_cases store with ⟨-, heq⟩ | ⟨mutation, -, heq⟩
  · rw [heq]
    exact hstore
  · rw [heq]
    exact h store mutation hstore

/-- The container flags agree with the keys after every mutation. -/
theorem kindsAgree_apply (store : LdpStore) (mutation : Mutation) (h : LdpStore.KindsAgree store) :
    LdpStore.KindsAgree (mutation.apply store) := by
  cases mutation with
  | put path body contentType => exact h.put path body contentType
  | delete path => exact h.delete path

end SolidCommunity.ServerCore
