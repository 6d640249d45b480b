import SolidCommunity.Foundations.Transcripts
import SolidCommunity.SolidStorage.Passthrough

/-!
# Key Spaces

Passthrough storages can be stacked: a stack of them is one passthrough storage, whose keys are
rewritten by one layer after the other.  When several tenants reach one source through stacks that
rewrite no two keys alike, each of them has a map of its own there, whatever the others do in
between; only the listings show that the source is shared.
-/

namespace SolidCommunity.SolidStorage.PassthroughKeyValueStorage

open Foundations.FiniteMap Foundations.Runs Foundations.Text

variable {State V : Type*}

/-! ## Stacks -/

/-- The storage that rewrites nothing. -/
def identity : PassthroughKeyValueStorage := ⟨id, id⟩

/-- A storage in front of another one. -/
def compose (outer inner : PassthroughKeyValueStorage) : PassthroughKeyValueStorage where
  toNewKey key := inner.toNewKey (outer.toNewKey key)
  toOriginalKey key := outer.toOriginalKey (inner.toOriginalKey key)

/-- The stack as one storage; the first layer is outermost. -/
def composition (layers : List PassthroughKeyValueStorage) : PassthroughKeyValueStorage :=
  layers.foldr compose identity

/-- The source behind the layers, the first of which is outermost. -/
def layered (layers : List PassthroughKeyValueStorage) (source : KeyValueStorage State V) :
    KeyValueStorage State V :=
  layers.foldr call source

section Stacks

variable {outer inner : PassthroughKeyValueStorage} {layers : List PassthroughKeyValueStorage}

theorem restoreAll_identity (outcome : SolidStorage.Outcome V) :
    identity.restoreAll outcome = outcome := by
  cases outcome with
  | listed entries => exact congrArg SolidStorage.Outcome.listed (Multiset.map_id entries)
  | value | found | stored | removed | failed => rfl

theorem restoreAll_compose (outer inner : PassthroughKeyValueStorage)
    (outcome : SolidStorage.Outcome V) :
    (compose outer inner).restoreAll outcome = outer.restoreAll (inner.restoreAll outcome) := by
  cases outcome with
  | listed entries =>
    exact congrArg SolidStorage.Outcome.listed (Multiset.map_map outer.restore inner.restore _).symm
  | value | found | stored | removed | failed => rfl

theorem call_identity (source : KeyValueStorage State V) : identity.call source = source := by
  funext state request
  cases request with
  | get | has | set | delete => rfl
  | entries => exact Prod.ext rfl (restoreAll_identity (source state .entries).2)

theorem call_compose (outer inner : PassthroughKeyValueStorage) (source : KeyValueStorage State V) :
    (compose outer inner).call source = outer.call (inner.call source) := by
  funext state request
  cases request with
  | get | has | set | delete => rfl
  | entries => exact Prod.ext rfl (restoreAll_compose outer inner (source state .entries).2)

/-- A stack of storages is one storage. -/
theorem layered_eq_call (layers : List PassthroughKeyValueStorage)
    (source : KeyValueStorage State V) :
    layered layers source = (composition layers).call source := by
  induction layers with
  | nil => exact (call_identity source).symm
  | cons layer layers ih =>
    calc layered (layer :: layers) source
        = layer.call (layered layers source) := rfl
      _ = layer.call ((composition layers).call source) := by rw [ih]
      _ = (composition (layer :: layers)).call source := (call_compose layer _ source).symm

/-- The layers of a stack undo each other's rewriting in turn. -/
theorem leftInverse_composition
    (h : ∀ layer ∈ layers, Function.LeftInverse layer.toOriginalKey layer.toNewKey) :
    Function.LeftInverse (composition layers).toOriginalKey (composition layers).toNewKey := by
  induction layers with
  | nil => exact fun _ ↦ rfl
  | cons layer layers ih =>
    obtain ⟨hlayer, hlayers⟩ := List.forall_mem_cons.mp h
    intro key
    calc layer.toOriginalKey ((composition layers).toOriginalKey
          ((composition layers).toNewKey (layer.toNewKey key)))
        = layer.toOriginalKey (layer.toNewKey key) := by rw [ih hlayers]
      _ = key := hlayer key

end Stacks

/-! ## Tenants -/

section Tenants

variable {Tenant : Type*} {tenants : Tenant → List PassthroughKeyValueStorage}
  {source : KeyValueStorage State V} {contents : State → HashMap Str V}

/-- Each tenant calls the shared source through a stack of its own. -/
def serve (tenants : Tenant → List PassthroughKeyValueStorage) (source : KeyValueStorage State V)
    (state : State) (request : Tenant × SolidStorage.Call V) : State × SolidStorage.Outcome V :=
  layered (tenants request.1) source state request.2

/-- The call is about one key. -/
def isKeyed : SolidStorage.Call V → Bool
  | .entries => false
  | _ => true

/-- A tenant's call that is about one key. -/
def keyedCall [DecidableEq Tenant] (tenant : Tenant) (request : Tenant × SolidStorage.Call V) :
    Option (SolidStorage.Call V) :=
  if request.1 = tenant ∧ isKeyed request.2 = true then some request.2 else none

/-- The source holds the map under the rewritten keys. -/
def Holds (storage : PassthroughKeyValueStorage) (inner map : HashMap Str V) : Prop :=
  ∀ key, inner.lookup (storage.toNewKey key) = map.lookup key

variable {storage : PassthroughKeyValueStorage} {inner map : HashMap Str V} {state : State}

theorem Holds.mem_iff (h : Holds storage inner map) (key : Str) :
    storage.toNewKey key ∈ inner ↔ key ∈ map := by
  rw [← Finmap.lookup_isSome, ← Finmap.lookup_isSome, h]

/-- A call about a key does to the held map what it does to a map in memory. -/
theorem Holds.call (h : Holds storage (contents state) map) (hsource : MapLike source contents)
    (hinjective : Function.Injective storage.toNewKey) {request : SolidStorage.Call V}
    (hkeyed : isKeyed request = true) :
    (storage.call source state request).2 = (MemoryMapStorage.run map request).2 ∧
      Holds storage (contents (storage.call source state request).1)
        (MemoryMapStorage.run map request).1 := by
  rw [contents_call hsource]
  cases request with
  | get key =>
    refine ⟨?_, h⟩
    calc (source state (.get (storage.toNewKey key))).2
        = .value ((contents state).lookup (storage.toNewKey key)) := hsource.outcome_eq state _
      _ = .value (map.lookup key) := by rw [h]
  | has key =>
    refine ⟨?_, h⟩
    calc (source state (.has (storage.toNewKey key))).2
        = .found (storage.toNewKey key ∈ contents state) := hsource.outcome_eq state _
      _ = .found (key ∈ map) := by simp only [h.mem_iff]
  | set key value =>
    refine ⟨hsource.outcome_eq state _, fun other ↦ ?_⟩
    calc ((contents state).insert (storage.toNewKey key) value).lookup (storage.toNewKey other)
        = if other = key then some value else map.lookup other := by
          rw [lookup_insert_eq_ite, h]
          simp only [hinjective.eq_iff]
      _ = (map.insert key value).lookup other := (lookup_insert_eq_ite map key other value).symm
  | delete key =>
    constructor
    · calc (source state (.delete (storage.toNewKey key))).2
          = .removed (storage.toNewKey key ∈ contents state) := hsource.outcome_eq state _
        _ = .removed (key ∈ map) := by simp only [h.mem_iff]
    · intro other
      calc ((contents state).erase (storage.toNewKey key)).lookup (storage.toNewKey other)
          = if other = key then none else map.lookup other := by
            rw [lookup_erase_eq_ite, h]
            simp only [hinjective.eq_iff]
        _ = (map.erase key).lookup other := (lookup_erase_eq_ite map key other).symm
  | entries => simp [isKeyed] at hkeyed

/-- A tenant's map does not notice a listing. -/
theorem Holds.entries (h : Holds storage (contents state) map) (hsource : MapLike source contents) :
    Holds storage (contents (storage.call source state .entries).1) map := by
  rw [contents_call hsource]
  exact h

/-- No two tenants rewrite keys alike. -/
def KeysDisjoint (tenants : Tenant → List PassthroughKeyValueStorage) : Prop :=
  ∀ tenant other, tenant ≠ other → ∀ key key',
    (composition (tenants tenant)).toNewKey key ≠ (composition (tenants other)).toNewKey key'

variable [DecidableEq Tenant]

/-- To the source, a tenant's calls about keys are those of a map of its own. -/
theorem servesPart_memoryMap (hsource : MapLike source contents)
    (hleft : ∀ tenant, ∀ layer ∈ tenants tenant,
      Function.LeftInverse layer.toOriginalKey layer.toNewKey)
    (hdisjoint : KeysDisjoint tenants) (tenant : Tenant) :
    ServesPart (serve tenants source) MemoryMapStorage.run (keyedCall tenant)
      (fun state map ↦ Holds (composition (tenants tenant)) (contents state) map) := by
  have hinjective := (leftInverse_composition (hleft tenant)).injective
  have hserve (state : State) (call : SolidStorage.Call V) :
      serve tenants source state (tenant, call) =
        (composition (tenants tenant)).call source state call :=
    congrFun (congrFun (layered_eq_call (tenants tenant) source) state) call
  have hown {request : Tenant × SolidStorage.Call V} {call : SolidStorage.Call V}
      (hpart : keyedCall tenant request = some call) :
      request = (tenant, call) ∧ isKeyed call = true := by
    obtain ⟨⟨htenant, hkeyed⟩, hcall⟩ := Option.ite_none_right_eq_some.mp hpart
    obtain rfl := Option.some_inj.mp hcall
    exact ⟨Prod.ext htenant rfl, hkeyed⟩
  constructor
  · intro state map request call hpart hholds
    obtain ⟨rfl, hkeyed⟩ := hown hpart
    rw [hserve]
    exact (hholds.call hsource hinjective hkeyed).1
  · intro state map request call hpart hholds
    obtain ⟨rfl, hkeyed⟩ := hown hpart
    rw [hserve]
    exact (hholds.call hsource hinjective hkeyed).2
  · intro state map request hpart hholds
    obtain ⟨other, call⟩ := request
    by_cases htenant : other = tenant
    · subst htenant
      have hlisting : call = .entries := by
        cases call with
        | entries => rfl
        | get | has | set | delete => simp [keyedCall, isKeyed] at hpart
      rw [hserve, hlisting]
      exact hholds.entries hsource
    · have hagree : Agree (composition (tenants tenant)) (contents state)
          (contents (serve tenants source state (other, call)).1) := by
        rw [serve, layered_eq_call]
        exact Agree.call (fun _ ↦ rfl) hsource (hdisjoint other tenant htenant) call
      exact fun key ↦ (hagree key).trans (hholds key)

/-- In every interleaving of the calls of any number of tenants, each through any stack of
storages, the calls of a tenant about keys are answered as by a map in memory that this tenant has
to itself. -/
theorem transcript_of_tenant (hsource : MapLike source contents)
    (hleft : ∀ tenant, ∀ layer ∈ tenants tenant,
      Function.LeftInverse layer.toOriginalKey layer.toNewKey)
    (hdisjoint : KeysDisjoint tenants) (hempty : contents state = ∅) (tenant : Tenant)
    (requests : List (Tenant × SolidStorage.Call V)) :
    (transcript (serve tenants source) state requests).filterMap
        (fun pair ↦ (keyedCall tenant pair.1).map fun call ↦ (call, pair.2)) =
      transcript MemoryMapStorage.run ∅ (requests.filterMap (keyedCall tenant)) := by
  apply (servesPart_memoryMap hsource hleft hdisjoint tenant).transcript_eq
  intro key
  rw [hempty, Finmap.lookup_empty, Finmap.lookup_empty]

/-- Two tenants use the same key below different paths. -/
theorem transcript_of_tenant_underPath :
    let tenants : Bool → List PassthroughKeyValueStorage := fun tenant ↦
      [underPath ['x', '/'], underPath (if tenant then ['a', '/'] else ['b', '/'])]
    (transcript (serve tenants MemoryMapStorage.run) (∅ : HashMap Str ℕ)
        [(true, .set ['k'] 1), (false, .set ['k'] 2), (true, .get ['k']), (false, .entries),
          (false, .delete ['k']), (true, .has ['k'])]).filterMap
        (fun pair ↦ (keyedCall true pair.1).map fun call ↦ (call, pair.2)) =
      transcript MemoryMapStorage.run ∅ [.set ['k'] 1, .get ['k'], .has ['k']] := by
  intro tenants
  have hleft : ∀ tenant, ∀ layer ∈ tenants tenant,
      Function.LeftInverse layer.toOriginalKey layer.toNewKey := by
    intro tenant layer hlayer
    rcases List.mem_pair.mp hlayer with rfl | rfl
    · exact leftInverse_underPath _
    · exact leftInverse_underPath _
  have hdisjoint : KeysDisjoint tenants := by
    intro tenant other hne key key'
    cases tenant with
    | true =>
      obtain rfl : other = false := by simpa using hne.symm
      exact @underPath_disjoint ['a', '/'] ['b', '/'] rfl (by decide) _ _
    | false =>
      obtain rfl : other = true := by simpa using hne.symm
      exact @underPath_disjoint ['b', '/'] ['a', '/'] rfl (by decide) _ _
  exact transcript_of_tenant (mapLike_memoryMap ℕ) hleft hdisjoint rfl true _

end Tenants

end SolidCommunity.SolidStorage.PassthroughKeyValueStorage
