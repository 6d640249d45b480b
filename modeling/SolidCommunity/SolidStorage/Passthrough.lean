import Mathlib.Logic.Function.Basic
import SolidCommunity.Foundations.Runs
import SolidCommunity.SolidStorage.MemoryMap

/-!
# Storages That Rewrite Keys

A passthrough storage rewrites every key before it reaches the inner storage, and rewrites the keys
back that the inner storage lists.  While nothing else writes there, it is a map in its own right.
Two of them on one inner storage share no key when they rewrite keys differently, but each lists
what the other has stored, under keys that it rewrites back all the same.
-/

namespace SolidCommunity.SolidStorage

open Foundations.FiniteMap Foundations.Runs Foundations.Text

/-- A key-value storage as what one call does to its state and returns. -/
abbrev KeyValueStorage (State V : Type*) :=
  State → SolidStorage.Call V → State × SolidStorage.Outcome V

/-- A source acts on its contents as the map in memory does. -/
structure MapLike {State V : Type*} (source : KeyValueStorage State V)
    (contents : State → HashMap Str V) : Prop where
  contents_eq : ∀ state call,
    contents (source state call).1 = (MemoryMapStorage.run (contents state) call).1
  outcome_eq : ∀ state call, (source state call).2 = (MemoryMapStorage.run (contents state) call).2

theorem mapLike_memoryMap (V : Type*) :
    MapLike (MemoryMapStorage.run : KeyValueStorage (HashMap Str V) V) id where
  contents_eq _ _ := rfl
  outcome_eq _ _ := rfl

/-- The two transformations of the keys. -/
structure PassthroughKeyValueStorage where
  toNewKey : Str → Str
  toOriginalKey : Str → Str

namespace PassthroughKeyValueStorage

variable {State V : Type*} (storage : PassthroughKeyValueStorage) (source : KeyValueStorage State V)

def getPassthrough (state : State) (key : Str) : State × SolidStorage.Outcome V :=
  source state (.get (storage.toNewKey key))

def hasPassthrough (state : State) (key : Str) : State × SolidStorage.Outcome V :=
  source state (.has (storage.toNewKey key))

def setPassthrough (state : State) (key : Str) (value : V) : State × SolidStorage.Outcome V :=
  source state (.set (storage.toNewKey key) value)

def deletePassthrough (state : State) (key : Str) : State × SolidStorage.Outcome V :=
  source state (.delete (storage.toNewKey key))

/-- Rewrite the key of an entry back. -/
def restore (entry : Str × V) : Str × V := (storage.toOriginalKey entry.1, entry.2)

/-- Rewrite the keys of a listing back; an error is passed on. -/
def restoreAll : SolidStorage.Outcome V → SolidStorage.Outcome V
  | .listed entries => .listed (entries.map storage.restore)
  | outcome => outcome

/-- All entries of the source, with their keys rewritten back. -/
def entriesPassthrough (state : State) : State × SolidStorage.Outcome V :=
  let (next, outcome) := source state .entries
  (next, storage.restoreAll outcome)

/-- The storage is a source itself. -/
def call : KeyValueStorage State V
  | state, .get key => storage.getPassthrough source state key
  | state, .has key => storage.hasPassthrough source state key
  | state, .set key value => storage.setPassthrough source state key value
  | state, .delete key => storage.deletePassthrough source state key
  | state, .entries => storage.entriesPassthrough source state

/-- The key of the source is that of some original key. -/
def Owns (key : Str) : Prop := storage.toNewKey (storage.toOriginalKey key) = key

instance : DecidablePred storage.Owns := fun key ↦
  inferInstanceAs (Decidable (storage.toNewKey (storage.toOriginalKey key) = key))

variable {storage source} {contents : State → HashMap Str V}

theorem owns_toNewKey (hleft : Function.LeftInverse storage.toOriginalKey storage.toNewKey)
    (key : Str) : storage.Owns (storage.toNewKey key) := by
  rw [Owns, hleft]

/-- The entries of the contents, with their keys rewritten back. -/
theorem entriesPassthrough_of_mapLike (hsource : MapLike source contents) (state : State) :
    (storage.entriesPassthrough source state).2 =
      .listed ((pairs (contents state)).map storage.restore) := by
  exact congrArg storage.restoreAll (hsource.outcome_eq state .entries)

/-- The call on the source that a call on the storage makes. -/
def rewrite : SolidStorage.Call V → SolidStorage.Call V
  | .get key => .get (storage.toNewKey key)
  | .has key => .has (storage.toNewKey key)
  | .set key value => .set (storage.toNewKey key) value
  | .delete key => .delete (storage.toNewKey key)
  | .entries => .entries

theorem contents_call (hsource : MapLike source contents) (state : State)
    (call : SolidStorage.Call V) :
    contents (storage.call source state call).1 =
      (MemoryMapStorage.run (contents state) (storage.rewrite call)).1 := by
  cases call with
  | get | has | set | delete | entries => exact hsource.contents_eq state _

/-! ## One storage on a source -/

section Alone

/-- The contents are a map of original keys, under rewritten keys. -/
structure Represents (storage : PassthroughKeyValueStorage) (inner map : HashMap Str V) : Prop where
  lookup : ∀ key, inner.lookup (storage.toNewKey key) = map.lookup key
  owned : ∀ key ∈ inner, storage.Owns key

variable {inner map : HashMap Str V}

theorem represents_empty : Represents storage (∅ : HashMap Str V) ∅ where
  lookup key := by simp
  owned key hkey := absurd hkey Finmap.notMem_empty

theorem Represents.mem_iff (h : Represents storage inner map) (key : Str) :
    storage.toNewKey key ∈ inner ↔ key ∈ map := by
  rw [← Finmap.lookup_isSome, ← Finmap.lookup_isSome, h.lookup]

theorem Represents.insert (h : Represents storage inner map)
    (hleft : Function.LeftInverse storage.toOriginalKey storage.toNewKey) (key : Str) (value : V) :
    Represents storage (inner.insert (storage.toNewKey key) value) (map.insert key value) where
  lookup other := by
    rw [lookup_insert_eq_ite, lookup_insert_eq_ite, h.lookup]
    simp only [hleft.injective.eq_iff]
  owned other hother := by
    rcases Finmap.mem_insert.mp hother with rfl | hother
    · exact owns_toNewKey hleft key
    · exact h.owned other hother

theorem Represents.erase (h : Represents storage inner map)
    (hleft : Function.LeftInverse storage.toOriginalKey storage.toNewKey) (key : Str) :
    Represents storage (inner.erase (storage.toNewKey key)) (map.erase key) where
  lookup other := by
    rw [lookup_erase_eq_ite, lookup_erase_eq_ite, h.lookup]
    simp only [hleft.injective.eq_iff]
  owned other hother := h.owned other (Finmap.mem_erase.mp hother).2

/-- Rewriting the keys back gives the entries of the map. -/
theorem Represents.map_restore (h : Represents storage inner map)
    (hleft : Function.LeftInverse storage.toOriginalKey storage.toNewKey) :
    (pairs inner).map storage.restore = pairs map := by
  apply (Multiset.Nodup.ext ?_ (nodup_pairs map)).mpr
  · rintro ⟨key, value⟩
    rw [Multiset.mem_map, mem_pairs]
    constructor
    · rintro ⟨entry, hentry, hrestore⟩
      obtain ⟨rfl, rfl⟩ := Prod.mk.inj hrestore
      rw [mem_pairs] at hentry
      have howned : storage.Owns entry.1 := h.owned entry.1 (Finmap.mem_of_lookup_eq_some hentry)
      rw [← h.lookup, howned]
      exact hentry
    · intro hvalue
      refine ⟨(storage.toNewKey key, value), mem_pairs.mpr ?_, ?_⟩
      · exact (h.lookup key).trans hvalue
      · rw [restore, hleft]
  · apply Multiset.Nodup.map_on ?_ (nodup_pairs inner)
    intro entry hentry other hother hrestore
    rw [mem_pairs] at hentry hother
    obtain ⟨hkey, hvalue⟩ := Prod.mk.inj hrestore
    have howned : storage.Owns entry.1 := h.owned entry.1 (Finmap.mem_of_lookup_eq_some hentry)
    have howned' : storage.Owns other.1 := h.owned other.1 (Finmap.mem_of_lookup_eq_some hother)
    refine Prod.ext ?_ hvalue
    calc entry.1 = storage.toNewKey (storage.toOriginalKey entry.1) := howned.symm
      _ = storage.toNewKey (storage.toOriginalKey other.1) := by rw [hkey]
      _ = other.1 := howned'

/-- One call does to the represented map what it does to a map in memory. -/
theorem simulation_memoryMap (hsource : MapLike source contents)
    (hleft : Function.LeftInverse storage.toOriginalKey storage.toNewKey) :
    Simulation (storage.call source) MemoryMapStorage.run
      (fun state map ↦ Represents storage (contents state) map) where
  response state map request h := by
    cases request with
    | get key =>
      calc (source state (.get (storage.toNewKey key))).2
          = .value ((contents state).lookup (storage.toNewKey key)) := hsource.outcome_eq state _
        _ = .value (map.lookup key) := by rw [h.lookup]
    | has key =>
      calc (source state (.has (storage.toNewKey key))).2
          = .found (storage.toNewKey key ∈ contents state) := hsource.outcome_eq state _
        _ = .found (key ∈ map) := by simp only [h.mem_iff]
    | set key value => exact hsource.outcome_eq state _
    | delete key =>
      calc (source state (.delete (storage.toNewKey key))).2
          = .removed (storage.toNewKey key ∈ contents state) := hsource.outcome_eq state _
        _ = .removed (key ∈ map) := by simp only [h.mem_iff]
    | entries =>
      calc (storage.entriesPassthrough source state).2
          = .listed ((pairs (contents state)).map storage.restore) :=
            entriesPassthrough_of_mapLike hsource state
        _ = .listed (pairs map) := by rw [h.map_restore hleft]
  next state map request h := by
    rw [contents_call hsource]
    cases request with
    | set key value => exact h.insert hleft key value
    | delete key => exact h.erase hleft key
    | get | has | entries => exact h

/-- A storage whose transformations are inverse answers, on an empty source of its own, like a map
in memory; it lists every key once, with the value that a lookup finds. -/
theorem responses_eq_memoryMap (hsource : MapLike source contents)
    (hleft : Function.LeftInverse storage.toOriginalKey storage.toNewKey) {state : State}
    (hempty : contents state = ∅) (calls : List (SolidStorage.Call V)) :
    responses (storage.call source) state calls = responses MemoryMapStorage.run ∅ calls ∧
      ∃ entries,
        (storage.entriesPassthrough source (after (storage.call source) state calls)).2 =
          .listed entries ∧
        (entries.map Prod.fst).Nodup ∧
        ∀ key value, (key, value) ∈ entries ↔
          (storage.getPassthrough source (after (storage.call source) state calls) key).2 =
            .value (some value) := by
  have hsimulation := simulation_memoryMap hsource hleft
  have hstart : Represents storage (contents state) ∅ := by
    rw [hempty]
    exact represents_empty
  refine ⟨hsimulation.responses_eq hstart calls, ?_⟩
  have hafter := hsimulation.after hstart calls
  refine ⟨_, hsimulation.response _ _ .entries hafter, ?_, fun key value ↦ ?_⟩
  · exact nodup_keys_pairs _
  · have hget : (storage.getPassthrough source (after (storage.call source) state calls) key).2 =
        .value ((after MemoryMapStorage.run ∅ calls).lookup key) :=
      hsimulation.response _ _ (.get key) hafter
    rw [mem_pairs, hget, SolidStorage.Outcome.value.injEq]

end Alone

/-! ## Two storages on one source -/

section Shared

variable {first second : PassthroughKeyValueStorage} {inner inner' : HashMap Str V} {state : State}

/-- The listed entries under keys of the storage. -/
def ownEntries (storage : PassthroughKeyValueStorage) (inner : HashMap Str V) :
    Multiset (Str × V) :=
  ((pairs inner).filter fun entry ↦ storage.Owns entry.1).map storage.restore

/-- The listed entries under other keys of the source. -/
def foreignEntries (storage : PassthroughKeyValueStorage) (inner : HashMap Str V) :
    Multiset (Str × V) :=
  ((pairs inner).filter fun entry ↦ ¬ storage.Owns entry.1).map storage.restore

theorem ownEntries_add_foreignEntries (storage : PassthroughKeyValueStorage)
    (inner : HashMap Str V) :
    storage.ownEntries inner + storage.foreignEntries inner =
      (pairs inner).map storage.restore := by
  rw [ownEntries, foreignEntries, ← Multiset.map_add, Multiset.filter_add_not]

/-- The own entries are what lookups of the storage find. -/
theorem mem_ownEntries (hleft : Function.LeftInverse storage.toOriginalKey storage.toNewKey)
    (key : Str) (value : V) :
    (key, value) ∈ storage.ownEntries inner ↔
      inner.lookup (storage.toNewKey key) = some value := by
  rw [ownEntries, Multiset.mem_map]
  constructor
  · rintro ⟨entry, hentry, hrestore⟩
    obtain ⟨hpair, howned⟩ := Multiset.mem_filter.mp hentry
    obtain ⟨rfl, rfl⟩ := Prod.mk.inj hrestore
    rw [show storage.toNewKey (storage.toOriginalKey entry.1) = entry.1 from howned]
    exact mem_pairs.mp hpair
  · intro hvalue
    refine ⟨(storage.toNewKey key, value), Multiset.mem_filter.mpr ⟨mem_pairs.mpr hvalue, ?_⟩, ?_⟩
    · exact owns_toNewKey hleft key
    · rw [restore, hleft]

/-- No key is listed twice among the own entries. -/
theorem nodup_keys_ownEntries (storage : PassthroughKeyValueStorage) (inner : HashMap Str V) :
    ((storage.ownEntries inner).map Prod.fst).Nodup := by
  rw [ownEntries, Multiset.map_map]
  apply Multiset.Nodup.map_on _ ((nodup_pairs inner).filter _)
  intro entry hentry other hother (hsame : storage.toOriginalKey entry.1 =
    storage.toOriginalKey other.1)
  obtain ⟨hpair, howned⟩ := Multiset.mem_filter.mp hentry
  obtain ⟨hpair', howned'⟩ := Multiset.mem_filter.mp hother
  have hkey : entry.1 = other.1 := by
    calc entry.1 = storage.toNewKey (storage.toOriginalKey entry.1) := howned.symm
      _ = storage.toNewKey (storage.toOriginalKey other.1) := by rw [hsame]
      _ = other.1 := howned'
  have hvalue : some entry.2 = some other.2 := by
    calc some entry.2 = inner.lookup entry.1 := (mem_pairs.mp hpair).symm
      _ = inner.lookup other.1 := by rw [hkey]
      _ = some other.2 := mem_pairs.mp hpair'
  exact Prod.ext hkey (Option.some_inj.mp hvalue)

/-- Two contents agree on every key of the storage. -/
def Agree (storage : PassthroughKeyValueStorage) (inner inner' : HashMap Str V) : Prop :=
  ∀ key, inner'.lookup (storage.toNewKey key) = inner.lookup (storage.toNewKey key)

/-- A call through a storage with other keys. -/
theorem Agree.call (h : Agree second inner (contents state)) (hsource : MapLike source contents)
    (hdisjoint : ∀ key other, first.toNewKey key ≠ second.toNewKey other)
    (request : SolidStorage.Call V) :
    Agree second inner (contents (first.call source state request).1) := by
  intro key
  rw [contents_call hsource]
  cases request with
  | set other value =>
    calc ((contents state).insert (first.toNewKey other) value).lookup (second.toNewKey key)
        = (contents state).lookup (second.toNewKey key) := by
          rw [lookup_insert_eq_ite, if_neg (hdisjoint other key).symm]
      _ = inner.lookup (second.toNewKey key) := h key
  | delete other =>
    calc ((contents state).erase (first.toNewKey other)).lookup (second.toNewKey key)
        = (contents state).lookup (second.toNewKey key) := by
          rw [lookup_erase_eq_ite, if_neg (hdisjoint other key).symm]
      _ = inner.lookup (second.toNewKey key) := h key
  | get | has | entries => exact h key

theorem Agree.mem_iff (h : Agree storage inner inner') (key : Str) :
    storage.toNewKey key ∈ inner' ↔ storage.toNewKey key ∈ inner := by
  rw [← Finmap.lookup_isSome, ← Finmap.lookup_isSome, h key]

theorem Agree.ownEntries_eq (h : Agree storage inner inner') :
    storage.ownEntries inner' = storage.ownEntries inner := by
  unfold ownEntries
  congr 1
  apply (Multiset.Nodup.ext ((nodup_pairs inner').filter _) ((nodup_pairs inner).filter _)).mpr
  intro entry
  rw [Multiset.mem_filter, Multiset.mem_filter, mem_pairs, mem_pairs]
  apply and_congr_left
  intro howned
  have hkey := h (storage.toOriginalKey entry.1)
  rw [show storage.toNewKey (storage.toOriginalKey entry.1) = entry.1 from howned] at hkey
  rw [hkey]

/-- Calls through a storage with other keys change no lookup of a storage, and in its listings only
the entries that are not its own; its own entries are what its lookups find, under each key once. -/
theorem confined_of_disjoint (hsource : MapLike source contents)
    (hleft : Function.LeftInverse second.toOriginalKey second.toNewKey)
    (hdisjoint : ∀ key other, first.toNewKey key ≠ second.toNewKey other) (state : State)
    (calls : List (SolidStorage.Call V)) :
    let final := after (first.call source) state calls
    (∀ key, (second.getPassthrough source final key).2 =
      (second.getPassthrough source state key).2) ∧
    (∀ key, (second.hasPassthrough source final key).2 =
      (second.hasPassthrough source state key).2) ∧
    ∃ own, (own.map Prod.fst).Nodup ∧
      (∀ key value, (key, value) ∈ own ↔
        (second.getPassthrough source state key).2 = .value (some value)) ∧
      (second.entriesPassthrough source state).2 =
        .listed (own + second.foreignEntries (contents state)) ∧
      (second.entriesPassthrough source final).2 =
        .listed (own + second.foreignEntries (contents final)) := by
  intro final
  have hagree : Agree second (contents state) (contents final) :=
    after_invariant (fun state' ↦ Agree second (contents state) (contents state'))
      (fun _ request h ↦ h.call hsource hdisjoint request) (fun _ ↦ rfl) calls
  have hget (state : State) (key : Str) : (second.getPassthrough source state key).2 =
      .value ((contents state).lookup (second.toNewKey key)) := hsource.outcome_eq state _
  have hhas (state : State) (key : Str) : (second.hasPassthrough source state key).2 =
      .found (second.toNewKey key ∈ contents state) := hsource.outcome_eq state _
  refine ⟨fun key ↦ ?_, fun key ↦ ?_, second.ownEntries (contents state),
    nodup_keys_ownEntries second _, fun key value ↦ ?_, ?_, ?_⟩
  · rw [hget, hget, hagree key]
  · rw [hhas, hhas]
    simp only [hagree.mem_iff]
  · rw [mem_ownEntries hleft, hget, SolidStorage.Outcome.value.injEq]
  · rw [entriesPassthrough_of_mapLike hsource, ownEntries_add_foreignEntries]
  · rw [entriesPassthrough_of_mapLike hsource, ← hagree.ownEntries_eq,
      ownEntries_add_foreignEntries]

end Shared

/-! ## Paths -/

/-- The storage under a path. -/
def underPath (path : Str) : PassthroughKeyValueStorage where
  toNewKey key := path ++ key
  toOriginalKey key := (stripPrefix key path).getD key

theorem leftInverse_underPath (path : Str) :
    Function.LeftInverse (underPath path).toOriginalKey (underPath path).toNewKey := by
  intro key
  change ((path ++ key).dropPrefix? path).getD (path ++ key) = key
  rw [List.dropPrefix?_append_of_beq key BEq.rfl, Option.getD_some]

theorem underPath_disjoint {path other : Str} (hlength : path.length = other.length)
    (hne : path ≠ other) (key key' : Str) :
    (underPath path).toNewKey key ≠ (underPath other).toNewKey key' :=
  fun h ↦ hne (List.append_inj_left h hlength)

/-- A storage under a path on an empty map. -/
theorem responses_eq_memoryMap_underPath :
    responses ((underPath ['a', '/']).call MemoryMapStorage.run) (∅ : HashMap Str ℕ)
        [.set ['x'] 1, .set ['y'] 2, .delete ['x'], .get ['x'], .entries] =
      responses MemoryMapStorage.run ∅
        [.set ['x'] 1, .set ['y'] 2, .delete ['x'], .get ['x'], .entries] :=
  (responses_eq_memoryMap (mapLike_memoryMap ℕ) (leftInverse_underPath ['a', '/']) rfl _).1

/-- Storages under two paths: a value survives a deletion of its key through the other. -/
theorem confined_of_disjoint_underPath :
    ((underPath ['b', '/']).getPassthrough MemoryMapStorage.run
        (after ((underPath ['a', '/']).call MemoryMapStorage.run)
          ((∅ : HashMap Str ℕ).insert ['b', '/', 'x'] 1) [.delete ['x'], .set ['x'] 2]) ['x']).2 =
      .value (some 1) :=
  ((confined_of_disjoint (mapLike_memoryMap ℕ) (leftInverse_underPath ['b', '/'])
    (@underPath_disjoint ['a', '/'] ['b', '/'] rfl (by decide)) _ _).1 ['x']).trans rfl

/-- A storage under one path lists what was stored under another. -/
theorem not_confined_underPath :
    ∃ first second : PassthroughKeyValueStorage,
      Function.LeftInverse first.toOriginalKey first.toNewKey ∧
      Function.LeftInverse second.toOriginalKey second.toNewKey ∧
      (∀ key other, first.toNewKey key ≠ second.toNewKey other) ∧
      (second.entriesPassthrough MemoryMapStorage.run
          (after (first.call MemoryMapStorage.run) (∅ : HashMap Str ℕ) [.set ['x'] 1])).2 ≠
        (second.entriesPassthrough MemoryMapStorage.run (∅ : HashMap Str ℕ)).2 := by
  refine ⟨underPath ['a', '/'], underPath ['b', '/'], leftInverse_underPath _,
    leftInverse_underPath _, underPath_disjoint rfl (by decide), fun h ↦ ?_⟩
  have hcard : 1 = 0 := congrArg Multiset.card (SolidStorage.Outcome.listed.inj h)
  exact absurd hcard one_ne_zero

end PassthroughKeyValueStorage

end SolidCommunity.SolidStorage
