import SolidCommunity.ServerCore.Routing

/-!
# Authorisation in the Request Pipeline

The authorisation middleware names the requested resource by the raw path of the request, while the
handler behind it accesses the key of the decoded and normalised path.  The two names agree exactly
on the paths without escapes that begin with a single slash.
-/

namespace SolidCommunity.ServerCore.Pipeline

open Foundations.FiniteMap Foundations.PercentDecoding Foundations.Text Http LdpHandlers Routing

inductive AccessMode where
  | read
  | write
  | append
  | control
deriving DecidableEq, Repr

structure ResourceIdentifier where
  path : Str
deriving DecidableEq, Repr

/-- The access modes requested for each resource. -/
abbrev AccessMap := HashMap ResourceIdentifier (Finset AccessMode)

/-- The access mode that a method requires. -/
def accessMode : Method → AccessMode
  | .get | .head | .options => .read
  | .put | .post | .patch => .write
  | .delete => .write
  | .other => .read

/-- The access map that `authz_middleware` asks the permission reader about. -/
def accessMap (request : Request) : AccessMap :=
  (∅ : AccessMap).insert ⟨request.path⟩ {accessMode request.method}

theorem keys_accessMap (request : Request) : (accessMap request).keys = {⟨request.path⟩} := by
  ext resource
  rw [accessMap, Finmap.mem_keys, Finmap.mem_insert, Finset.mem_singleton, or_iff_left]
  exact Finmap.notMem_empty

/-- If the request reaches a handler, the one resource that was authorised is the one that the
handler accesses. -/
def AuthorisesAccessed (request : Request) : Prop :=
  ∀ path ∈ capture request.path, (accessMap request).keys = {⟨accessedKey path⟩}

instance (request : Request) : Decidable (AuthorisesAccessed request) :=
  inferInstanceAs (Decidable (∀ path ∈ capture request.path,
    (accessMap request).keys = {⟨accessedKey path⟩}))

/-- The authorised resource is the accessed one exactly for the paths that reach no handler or name
their own key. -/
theorem authorisesAccessed_iff (request : Request) :
    AuthorisesAccessed request ↔ capture request.path = none ∨ NamesItself request.path := by
  unfold AuthorisesAccessed
  cases hcapture : capture request.path with
  | none => simp
  | some path =>
    have hkey := accessedKey_eq_path_iff hcapture
    rw [eq_comm] at hkey
    simp [keys_accessMap, hkey]

/-- The escaped spelling of a document is authorised as another resource. -/
theorem not_authorisesAccessed_escaped :
    ¬ AuthorisesAccessed ⟨.get, "/private/%61.acl".toList, [], some []⟩ := by
  decide

end SolidCommunity.ServerCore.Pipeline
