import Mathlib.Data.Finmap

/-!
# Finite Maps with Default Insertion

A hash map whose iteration order is never observed is Mathlib's extensional finite map.  The one
operation added here inserts a value only where the key is still absent; a fold of it over several
keys is determined by which keys occur, not by their order or multiplicity.
-/

namespace SolidCommunity.Foundations.FiniteMap

variable {Key Value : Type*} [DecidableEq Key]

/-- A hash map up to its iteration order. -/
abbrev HashMap (Key Value : Type*) := Finmap fun _ : Key ↦ Value

/-- `entry(key).or_insert(value)`. -/
def orInsert (map : HashMap Key Value) (key : Key) (value : Value) : HashMap Key Value :=
  if key ∈ map then map else map.insert key value

/-- Default insertion of one value under several keys. -/
def orInsertAll (map : HashMap Key Value) (keys : List Key) (value : Value) : HashMap Key Value :=
  keys.foldl (fun map key ↦ orInsert map key value) map

theorem lookup_orInsert (map : HashMap Key Value) (key other : Key) (value : Value) :
    (orInsert map key value).lookup other =
      (map.lookup other).or (if other = key then some value else none) := by
  unfold orInsert
  by_cases hother : other = key
  · subst hother
    by_cases hmem : other ∈ map
    · obtain ⟨stored, hstored⟩ := Finmap.mem_iff.mp hmem
      simp [hmem, hstored]
    · simp [hmem, Finmap.lookup_eq_none.mpr hmem]
  · by_cases hmem : key ∈ map
    · simp [hmem, hother]
    · simp [hmem, hother, Finmap.lookup_insert_of_ne map hother]

/-- Only absent keys of the list change, and they all receive the default. -/
theorem lookup_orInsertAll (map : HashMap Key Value) (keys : List Key) (other : Key)
    (value : Value) :
    (orInsertAll map keys value).lookup other =
      (map.lookup other).or (if other ∈ keys then some value else none) := by
  induction keys generalizing map with
  | nil => simp [orInsertAll]
  | cons key keys ih =>
    change (orInsertAll (orInsert map key value) keys value).lookup other = _
    rw [ih, lookup_orInsert]
    cases map.lookup other <;> by_cases hkey : other = key <;> simp [hkey]

theorem mem_orInsertAll {map : HashMap Key Value} {keys : List Key} {other : Key} {value : Value} :
    other ∈ orInsertAll map keys value ↔ other ∈ map ∨ other ∈ keys := by
  rw [← Finmap.lookup_isSome, ← Finmap.lookup_isSome, lookup_orInsertAll]
  cases map.lookup other <;> by_cases hkeys : other ∈ keys <;> simp [hkeys]

/-- A stored entry survives default insertion unchanged. -/
theorem lookup_orInsertAll_of_mem {map : HashMap Key Value} {other : Key} (h : other ∈ map)
    (keys : List Key) (value : Value) :
    (orInsertAll map keys value).lookup other = map.lookup other := by
  obtain ⟨stored, hstored⟩ := Finmap.mem_iff.mp h
  rw [lookup_orInsertAll, hstored, Option.some_or]

theorem lookup_orInsertAll_of_notMem_keys {keys : List Key} {other : Key} (h : other ∉ keys)
    (map : HashMap Key Value) (value : Value) :
    (orInsertAll map keys value).lookup other = map.lookup other := by
  rw [lookup_orInsertAll, if_neg h, Option.or_none]

/-- Default insertion does nothing when every key is stored. -/
theorem orInsertAll_eq_self {map : HashMap Key Value} {keys : List Key}
    (h : ∀ key ∈ keys, key ∈ map) (value : Value) : orInsertAll map keys value = map := by
  apply Finmap.ext_lookup
  intro other
  by_cases hmem : other ∈ map
  · exact lookup_orInsertAll_of_mem hmem keys value
  · exact lookup_orInsertAll_of_notMem_keys (fun hkeys ↦ hmem (h other hkeys)) map value

/-- The stored entry under `key` after an insertion of `value` under `inserted`. -/
theorem lookup_insert_eq_ite (map : HashMap Key Value) (inserted key : Key) (value : Value) :
    (map.insert inserted value).lookup key =
      if key = inserted then some value else map.lookup key := by
  by_cases h : key = inserted
  · subst h
    rw [if_pos rfl, Finmap.lookup_insert]
  · rw [if_neg h, Finmap.lookup_insert_of_ne map h]

/-- An insertion under an absent key leaves what is stored. -/
theorem lookup_insert_of_notMem {map : HashMap Key Value} {inserted key : Key} {value stored : Value}
    (h : inserted ∉ map) (hstored : map.lookup key = some stored) :
    (map.insert inserted value).lookup key = some stored := by
  have hne : key ≠ inserted := by
    rintro rfl
    exact h (Finmap.mem_of_lookup_eq_some hstored)
  rw [lookup_insert_eq_ite, if_neg hne, hstored]

/-- What is stored after an insertion was inserted, or was stored before. -/
theorem lookup_insert_cases {map : HashMap Key Value} {inserted key : Key} {value stored : Value}
    (h : (map.insert inserted value).lookup key = some stored) :
    (key = inserted ∧ value = stored) ∨ (key ≠ inserted ∧ map.lookup key = some stored) := by
  rw [lookup_insert_eq_ite] at h
  split at h
  · next hkey => exact .inl ⟨hkey, Option.some_inj.mp h⟩
  · next hkey => exact .inr ⟨hkey, h⟩

theorem lookup_erase_eq_ite (map : HashMap Key Value) (erased key : Key) :
    (map.erase erased).lookup key = if key = erased then none else map.lookup key := by
  by_cases h : key = erased
  · subst h
    rw [if_pos rfl, Finmap.lookup_erase]
  · rw [if_neg h, Finmap.lookup_erase_ne h]

/-- What is stored after an erasure was stored before, under another key. -/
theorem lookup_of_erase {map : HashMap Key Value} {erased key : Key} {stored : Value}
    (h : (map.erase erased).lookup key = some stored) :
    key ≠ erased ∧ map.lookup key = some stored := by
  rw [lookup_erase_eq_ite] at h
  exact Option.ite_none_left_eq_some.mp h

/-- Whether a key is stored can be told from its entry. -/
theorem mem_congr {first second : HashMap Key Value} {key : Key}
    (h : first.lookup key = second.lookup key) : key ∈ first ↔ key ∈ second := by
  rw [← Finmap.lookup_isSome, ← Finmap.lookup_isSome, h]

/-- Remove several keys. -/
def eraseAll (map : HashMap Key Value) (keys : List Key) : HashMap Key Value :=
  keys.foldl (fun map key ↦ map.erase key) map

theorem lookup_eraseAll (map : HashMap Key Value) (keys : List Key) (key : Key) :
    (eraseAll map keys).lookup key = if key ∈ keys then none else map.lookup key := by
  induction keys generalizing map with
  | nil => simp [eraseAll]
  | cons erased keys ih =>
    calc (eraseAll map (erased :: keys)).lookup key
        = (eraseAll (map.erase erased) keys).lookup key := rfl
      _ = if key ∈ keys then none else (map.erase erased).lookup key := ih _
      _ = if key ∈ erased :: keys then none else map.lookup key := by
        rw [lookup_erase_eq_ite]
        by_cases hkey : key = erased <;> simp [hkey]

/-- Erasing an absent key changes nothing. -/
theorem erase_eq_self {map : HashMap Key Value} {key : Key} (h : key ∉ map) :
    map.erase key = map := by
  apply Finmap.ext_lookup
  intro other
  rw [lookup_erase_eq_ite]
  split
  · next hother => rw [hother, Finmap.lookup_eq_none.mpr h]
  · rfl

theorem lookup_eq_some_iff_mem_entries {map : HashMap Key Value} {key : Key} {value : Value} :
    map.lookup key = some value ↔ (⟨key, value⟩ : Sigma fun _ ↦ Value) ∈ map.entries :=
  Finmap.mem_lookup_iff

/-- `retain`: the entries that satisfy the predicate. -/
def retain (map : HashMap Key Value) (keep : Key → Value → Bool) : HashMap Key Value where
  entries := map.entries.filter fun entry ↦ keep entry.1 entry.2
  nodupKeys := by
    rw [← Multiset.nodup_keys]
    exact Multiset.nodup_of_le (Multiset.map_le_map (Multiset.filter_le _ _))
      map.nodupKeys.nodup_keys

theorem lookup_retain (map : HashMap Key Value) (keep : Key → Value → Bool) (key : Key) :
    (retain map keep).lookup key = (map.lookup key).filter (keep key) := by
  ext value
  rw [lookup_eq_some_iff_mem_entries, Option.filter_eq_some_iff, lookup_eq_some_iff_mem_entries,
    retain, Multiset.mem_filter]

/-- The map that assigns a value to every key of a finite set. -/
def ofFinset (keys : Finset Key) (value : Key → Value) : HashMap Key Value where
  entries := keys.val.map fun key ↦ ⟨key, value key⟩
  nodupKeys := by
    rw [← Multiset.nodup_keys, Multiset.keys, Multiset.map_map]
    simpa using keys.nodup

omit [DecidableEq Key] in
/-- Every map is iterated in some order. -/
theorem exists_toFinmap_eq (map : HashMap Key Value) :
    ∃ order : AList (fun _ : Key ↦ Value), order.toFinmap = map := by
  induction map using Finmap.induction_on with
  | H order => exact ⟨order, rfl⟩

/-- The entries of a map as pairs. -/
def pairs (map : HashMap Key Value) : Multiset (Key × Value) :=
  map.entries.map fun entry ↦ (entry.1, entry.2)

theorem mem_pairs {map : HashMap Key Value} {pair : Key × Value} :
    pair ∈ pairs map ↔ map.lookup pair.1 = some pair.2 := by
  rw [lookup_eq_some_iff_mem_entries, pairs, Multiset.mem_map]
  constructor
  · rintro ⟨entry, hentry, rfl⟩
    exact hentry
  · intro h
    exact ⟨⟨pair.1, pair.2⟩, h, rfl⟩

omit [DecidableEq Key] in
theorem nodup_pairs (map : HashMap Key Value) : (pairs map).Nodup := by
  refine map.nodup_entries.map ?_
  rintro ⟨key, value⟩ ⟨key', value'⟩ h
  obtain ⟨rfl, rfl⟩ := Prod.mk.inj h
  rfl

omit [DecidableEq Key] in
/-- The pairs of a map have different keys. -/
theorem nodup_keys_pairs (map : HashMap Key Value) : ((pairs map).map Prod.fst).Nodup := by
  rw [pairs, Multiset.map_map]
  exact map.nodupKeys.nodup_keys

section Conversion

variable {Raw : Type*} {map : HashMap Key Value} {convert : Raw → Option Value}

/-- Converting a list of entries keeps their keys and finds the values of the other map. -/
theorem mapM_convert {order : List (Sigma fun _ : Key ↦ Raw)}
    (hconvert : ∀ entry ∈ order, ∃ value, convert entry.2 = some value ∧
      map.lookup entry.1 = some value) :
    ∃ list : List (Key × Value),
      (order.mapM fun entry ↦ (convert entry.2).map (entry.1, ·)) = some list ∧
      list.map (·.1) = order.map (·.1) ∧ ∀ pair ∈ list, map.lookup pair.1 = some pair.2 := by
  induction order with
  | nil => exact ⟨[], by simp⟩
  | cons entry order ih =>
    obtain ⟨value, hvalue, hlookup⟩ := hconvert entry List.mem_cons_self
    obtain ⟨list, hlist, hkeys, hpairs⟩ := ih fun other hother ↦
      hconvert other (List.mem_cons_of_mem entry hother)
    refine ⟨(entry.1, value) :: list, ?_, ?_, ?_⟩
    · rw [List.mapM_cons, hvalue, hlist]
      rfl
    · rw [List.map_cons, List.map_cons, hkeys]
    · rintro pair hpair
      rcases List.mem_cons.mp hpair with rfl | hpair
      · exact hlookup
      · exact hpairs pair hpair

/-- Converting the entries of one map, in any order, lists the entries of the other. -/
theorem mapM_entries {raw : HashMap Key Raw}
    (hconvert : ∀ key stored, raw.lookup key = some stored →
      ∃ value, convert stored = some value ∧ map.lookup key = some value)
    (hcovered : ∀ key, key ∈ map → key ∈ raw) {order : List (Sigma fun _ : Key ↦ Raw)}
    (horder : (order : Multiset _) = raw.entries) :
    ∃ list : List (Key × Value),
      (order.mapM fun entry ↦ (convert entry.2).map (entry.1, ·)) = some list ∧
      (list : Multiset _) = pairs map := by
  have hmem (entry : Sigma fun _ : Key ↦ Raw) :
      entry ∈ order ↔ raw.lookup entry.1 = some entry.2 := by
    rw [lookup_eq_some_iff_mem_entries, ← horder, Multiset.mem_coe]
  obtain ⟨list, hlist, hkeys, hpairs⟩ := mapM_convert fun entry hentry ↦
    hconvert entry.1 entry.2 ((hmem entry).mp hentry)
  have hnodup : (list.map (·.1)).Nodup := by
    have hraw : (Multiset.map (·.1) raw.entries).Nodup := raw.nodupKeys.nodup_keys
    rw [hkeys, ← Multiset.coe_nodup, ← Multiset.map_coe, horder]
    exact hraw
  refine ⟨list, hlist, (Multiset.Nodup.ext (Multiset.coe_nodup.mpr (hnodup.of_map _))
    (nodup_pairs map)).mpr fun pair ↦ ?_⟩
  rw [Multiset.mem_coe, mem_pairs]
  refine ⟨hpairs pair, fun hpair ↦ ?_⟩
  obtain ⟨stored, hstored⟩ :=
    Finmap.mem_iff.mp (hcovered pair.1 (Finmap.mem_of_lookup_eq_some hpair))
  have hkey : pair.1 ∈ list.map (·.1) := by
    rw [hkeys]
    exact List.mem_map_of_mem (f := (·.1)) ((hmem ⟨pair.1, stored⟩).mpr hstored)
  obtain ⟨other, hother, hsame⟩ := List.mem_map.mp hkey
  have hvalue : other.2 = pair.2 :=
    Option.some_inj.mp ((hpairs other hother).symm.trans (hsame ▸ hpair))
  rwa [← Prod.ext hsame hvalue]

end Conversion

end SolidCommunity.Foundations.FiniteMap
