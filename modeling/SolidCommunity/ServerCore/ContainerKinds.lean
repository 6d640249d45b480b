import SolidCommunity.ServerCore.Mutation
import SolidCommunity.ServerCore.Routing

/-!
# Keys and Kinds

The container flag is set by the constructor, by the ancestor walk and by the put itself, and read
back from the entry by one handler and from the key by another.  Over every run of puts and
deletions, whatever their paths, the flag says whether the key ends with a slash, so both handlers
describe a resource alike.
-/

namespace SolidCommunity.ServerCore.ContainerKinds

open Foundations.FiniteMap Foundations.Runs Foundations.Text Http LdpHandlers LdpStore Routing

/-- Every stored key is absolute. -/
def KeysAbsolute (store : LdpStore) : Prop := ∀ key ∈ store, startsWith key '/' = true

theorem keysAbsolute_new : KeysAbsolute LdpStore.new := by
  intro key hkey
  rw [LdpStore.new, Finmap.mem_insert] at hkey
  rcases hkey with rfl | hkey
  · rfl
  · exact absurd hkey Finmap.notMem_empty

theorem keysAbsolute_apply {store : LdpStore} (h : KeysAbsolute store) (mutation : Mutation) :
    KeysAbsolute (mutation.apply store) := by
  intro key hkey
  cases mutation with
  | put path body contentType =>
    rcases mem_put.mp hkey with rfl | hstored | hancestor
    · exact startsWith_key path
    · exact h key hstored
    · exact startsWith_of_mem_ancestorKeys hancestor
  | delete path => exact h key (mem_delete.mp hkey).2

/-- Both invariants hold in every state that puts and deletions reach. -/
theorem invariants_of_reachable {store : LdpStore}
    (h : Reachable mutationStep LdpStore.new store) : KeysAbsolute store ∧ KindsAgree store := by
  apply invariant_of_reachable mutationStep (fun store ↦ KeysAbsolute store ∧ KindsAgree store)
    ?_ ⟨keysAbsolute_new, kindsAgree_new⟩ h
  intro state mutation next hstate hstep
  obtain rfl : mutation.apply state = next := Option.some_inj.mp hstep
  exact ⟨keysAbsolute_apply hstate.1 mutation, kindsAgree_apply state mutation hstate.2⟩

/-! ## The `Link` headers -/

theorem containerLink_ne_resourceLink : containerLink ≠ resourceLink := by
  decide

/-- A document answered with success carries the link that its flag selects. -/
theorem link_handleGet {store : LdpStore} {path : Option Str} {request : Request} {entry : Entry}
    (hentry : store.lookup (accessedKey path) = some entry)
    (hok : (handleGet store path request).status = StatusCode.ok) :
    (handleGet store path request).headers.get HeaderName.link =
      some (if entry.isContainer then containerLink else resourceLink) := by
  unfold accessedKey at hentry
  simp only [handleGet, LdpStore.get, hentry] at hok ⊢
  split at hok
  · simp [notAcceptable, plainTextResponse] at hok
  · cases hvalue : HeaderValue.fromStr entry.contentType with
    | none =>
      rw [hvalue] at hok
      simp [Builder.new, Builder.header, Builder.bodyOrError, StatusCode.intoResponse] at hok
    | some value => rfl

/-- The response to a put whose body was read carries the link that its key selects. -/
theorem link_handlePut (store : LdpStore) (path : Option Str) {request : Request} {body : Bytes}
    (hbody : request.body = some body) :
    (handlePut store path request).2.headers.get HeaderName.link =
      if endsWith (accessedKey path) '/' then some containerLink else none := by
  have hkind : endsWith (accessedKey path) '/' = LdpStore.isContainer (resolvePath path) := rfl
  rw [hkind]
  simp only [handlePut, hbody]
  split <;> rfl

/-- In every state reachable by puts and deletions, every stored key begins with a slash and its
flag says whether it ends with one; a successful get of the key therefore carries the container link
exactly when a put on the key does. -/
theorem kind_of_reachable {store : LdpStore} (hreachable : Reachable mutationStep LdpStore.new store)
    {key : Str} {entry : Entry} (hentry : store.lookup key = some entry) :
    startsWith key '/' = true ∧ (entry.isContainer = true ↔ endsWith key '/' = true) ∧
      ∀ (getPath putPath : Option Str) (getRequest putRequest : Request) (body : Bytes)
        (other : LdpStore),
        accessedKey getPath = key → accessedKey putPath = key → putRequest.body = some body →
        (handleGet store getPath getRequest).status = StatusCode.ok →
        ((handleGet store getPath getRequest).headers.get HeaderName.link = some containerLink ↔
          (handlePut other putPath putRequest).2.headers.get HeaderName.link =
            some containerLink) := by
  obtain ⟨habsolute, hkinds⟩ := invariants_of_reachable hreachable
  have hflag : entry.isContainer = endsWith key '/' := hkinds key entry hentry
  refine ⟨habsolute key (Finmap.mem_of_lookup_eq_some hentry), by rw [hflag], ?_⟩
  intro getPath putPath getRequest putRequest body other hget hput hbody hok
  have hgetLink := link_handleGet (hget ▸ hentry) hok
  have hputLink := link_handlePut other putPath hbody
  rw [hgetLink, hputLink, hput, hflag]
  cases endsWith key '/' with
  | true => simp
  | false => simpa using containerLink_ne_resourceLink.symm

/-- The container that a put of `/a/b` creates on the way. -/
theorem kind_of_reachable_ancestor :
    startsWith "/a/".toList '/' = true ∧
      (emptyContainer.isContainer = true ↔ endsWith "/a/".toList '/' = true) ∧
      ((handleGet (Mutation.apply LdpStore.new (.put "/a/b".toList [1] [])) (some "a/".toList)
          ⟨.get, "/a/".toList, [], some []⟩).headers.get HeaderName.link = some containerLink ↔
        (handlePut LdpStore.new (some "/a/".toList)
          ⟨.put, "//a/".toList, [], some [2]⟩).2.headers.get HeaderName.link =
            some containerLink) := by
  have hreachable : Reachable mutationStep LdpStore.new
      (Mutation.apply LdpStore.new (.put "/a/b".toList [1] [])) :=
    ⟨[.put "/a/b".toList [1] []], rfl⟩
  have hentry : (Mutation.apply LdpStore.new (.put "/a/b".toList [1] [])).lookup "/a/".toList =
      some emptyContainer := by
    decide
  obtain ⟨hstart, hflag, hlink⟩ := kind_of_reachable hreachable hentry
  exact ⟨hstart, hflag, hlink (some "a/".toList) (some "/a/".toList)
    ⟨.get, "/a/".toList, [], some []⟩ ⟨.put, "//a/".toList, [], some [2]⟩ [2] LdpStore.new
    (by decide) (by decide) rfl (by decide)⟩

end SolidCommunity.ServerCore.ContainerKinds
