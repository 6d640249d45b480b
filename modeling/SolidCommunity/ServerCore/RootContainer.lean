import SolidCommunity.ServerCore.Mutation
import SolidCommunity.ServerCore.Routing

/-!
# The Root Container

The constructor seeds the root container because it must always exist.  A put never removes a key,
but a deletion does not treat the root differently from any other key, so the root is served
throughout exactly the runs that do not delete it.
-/

namespace SolidCommunity.ServerCore.RootContainer

open Foundations.FiniteMap Foundations.Runs Foundations.Text Http LdpHandlers LdpStore Routing

/-- The key of the root container. -/
abbrev root : Str := ['/']

/-- The root is a stored container, and no get or head of it without an `Accept` header misses. -/
def RootServed (store : LdpStore) : Prop :=
  (∃ entry, store.lookup root = some entry ∧ entry.isContainer = true) ∧
    ∀ (path : Option Str) (request : Request), accessedKey path = root →
      request.headers.get HeaderName.accept = none →
      (handleGet store path request).status ≠ StatusCode.notFound ∧
        (handleHead store path request).status ≠ StatusCode.notFound

/-- The request is not a deletion of the root. -/
def KeepsRoot (handled : HandledRequest) : Prop :=
  handled.request.method = .delete → resolvePath handled.path ≠ root

instance (handled : HandledRequest) : Decidable (KeepsRoot handled) :=
  inferInstanceAs (Decidable (handled.request.method = .delete → resolvePath handled.path ≠ root))

/-- The root is stored, with flags that agree with the keys. -/
structure RootStored (store : LdpStore) : Prop where
  kinds : KindsAgree store
  stored : root ∈ store

theorem rootStored_new : RootStored LdpStore.new where
  kinds := kindsAgree_new
  stored := Finmap.mem_insert.mpr (.inl rfl)

/-! ## A stored root is served -/

theorem ReadStatus.ne_notFound {stored : Prop} {status : StatusCode} (h : ReadStatus stored status)
    (hstored : stored) : status ≠ StatusCode.notFound := by
  rcases h with ⟨-, rfl | rfl | rfl⟩ | ⟨habsent, -⟩
  · decide
  · decide
  · decide
  · exact absurd hstored habsent

theorem RootStored.served {store : LdpStore} (h : RootStored store) : RootServed store := by
  constructor
  · obtain ⟨entry, hentry⟩ := Option.isSome_iff_exists.mp (Finmap.lookup_isSome.mpr h.stored)
    exact ⟨entry, hentry, h.kinds root entry hentry⟩
  · intro path request hpath _
    have hstored : accessedKey path ∈ store := hpath ▸ h.stored
    constructor
    · exact ReadStatus.ne_notFound (readStatus_handleGet store path request) hstored
    · exact ReadStatus.ne_notFound (readStatus_handleHead store path request) hstored

/-! ## Runs -/

/-- Every request but a deletion of the root keeps it. -/
theorem RootStored.store {store : LdpStore} (h : RootStored store) {handled : HandledRequest}
    (hkeeps : KeepsRoot handled) : RootStored (handled.store store) := by
  refine ⟨invariant_of_mutations kindsAgree_apply h.kinds handled, ?_⟩
  rcases handled.store_cases store with ⟨-, heq⟩ | ⟨mutation, hmutation, heq⟩
  · rw [heq]
    exact h.stored
  · rw [heq]
    cases mutation with
    | put path body contentType => exact mem_put.mpr (.inr (.inl h.stored))
    | delete path =>
      obtain ⟨hmethod, rfl⟩ := HandledRequest.mutation_eq_delete hmutation
      have hne : root ≠ accessedKey handled.path := by
        rw [accessedKey_eq]
        exact (hkeeps hmethod).symm
      exact mem_delete.mpr ⟨hne, h.stored⟩

/-- A deletion of the root leaves no root to serve. -/
theorem not_rootServed_of_not_keepsRoot {handled : HandledRequest} (h : ¬ KeepsRoot handled)
    (store : LdpStore) : ¬ RootServed (handled.store store) := by
  obtain ⟨hmethod, hpath⟩ : handled.request.method = .delete ∧ resolvePath handled.path = root := by
    simpa [KeepsRoot] using h
  rintro ⟨⟨entry, hentry, -⟩, -⟩
  rw [handled.store_eq, HandledRequest.mutation, hmethod] at hentry
  simp [Mutation.apply, lookup_delete, hpath] at hentry

/-- The root is a stored container that get and head find, throughout exactly the runs of requests
that do not delete it. -/
theorem always_rootServed_iff (requests : List HandledRequest) :
    Always requestStep RootServed LdpStore.new requests ↔
      ∀ handled ∈ requests, handled.request.method = .delete → resolvePath handled.path ≠ root :=
  calc Always requestStep RootServed LdpStore.new requests
      ↔ EveryStep requestStep (fun _ handled ↦ KeepsRoot handled) LdpStore.new requests := by
        apply always_iff_everyStep requestStep (fun store (h : RootStored store) ↦ h.served) ?_ ?_
          rootStored_new
        · intro store handled next hstored hkeeps hstep
          exact Option.some_inj.mp hstep ▸ hstored.store hkeeps
        · intro store handled _ hdeletes
          exact ⟨_, rfl, not_rootServed_of_not_keepsRoot hdeletes store⟩
    _ ↔ ∀ handled ∈ requests, KeepsRoot handled :=
        everyStep_iff_forall_mem requestStep fun _ _ ↦ rfl

/-- After a deletion of the root, there is none. -/
theorem not_always_rootServed :
    ¬ Always requestStep RootServed LdpStore.new
      [⟨none, ⟨"67e55044-10b1-426f-9247-bb680e5fe0c8".toList, rfl, by decide⟩,
        ⟨.delete, "/".toList, [], some []⟩⟩] := by
  rintro ⟨-, hnext⟩
  obtain ⟨⟨entry, hentry, -⟩, -⟩ := hnext _ rfl
  have hnone : Finmap.lookup root (LdpStore.delete LdpStore.new root).1 = none := by decide
  exact absurd (hnone.symm.trans hentry) (by simp)

end SolidCommunity.ServerCore.RootContainer
