import SolidCommunity.Foundations.Runs
import SolidCommunity.Foundations.UniqueIndex

/-!
# Registries

A registry is a table whose rows are inserted under fresh keys of their own and removed by their
keys.  Its rows are those that were inserted and not removed since, and a scan in any order lists
each of them once.
-/

namespace SolidCommunity.Foundations.UniqueIndex

open FiniteMap Runs

variable {Key Row : Type*} [DecidableEq Key]

/-- What a call does to a registry. -/
inductive Change (Key Row : Type*) where
  | insert (row : Row)
  | remove (key : Key)

/-- The registered rows after a change, in the order of their insertion. -/
def Change.record (ownKey : Row → Key) (rows : List Row) : Change Key Row → List Row
  | insert row => rows ++ [row]
  | remove key => rows.filter (ownKey · ≠ key)

/-- The rows that were inserted and not removed since. -/
def registered (ownKey : Row → Key) (changes : List (Change Key Row)) : List Row :=
  changes.foldl (Change.record ownKey) []

theorem registered_concat (ownKey : Row → Key) (changes : List (Change Key Row))
    (change : Change Key Row) :
    registered ownKey (changes ++ [change]) = change.record ownKey (registered ownKey changes) := by
  rw [registered, List.foldl_append]
  rfl

/-- Nothing is lost where nothing is removed. -/
theorem registered_map_insert (ownKey : Row → Key) (rows : List Row) :
    registered ownKey (rows.map .insert) = rows := by
  induction rows using List.reverseRecOn with
  | nil => rfl
  | append_singleton rows row ih =>
    rw [List.map_append, List.map_singleton, registered_concat, ih]
    rfl

/-- The table has exactly the rows, each under its own key. -/
structure Registers (ownKey : Row → Key) (rows : List Row) (table : HashMap Key Row) : Prop where
  keyed : Keyed ownKey table
  nodup : (rows.map ownKey).Nodup
  mem_iff : ∀ row, row ∈ rows ↔ table.lookup (ownKey row) = some row

section Registers

variable {ownKey : Row → Key} {rows : List Row} {table : HashMap Key Row} {row : Row} {key : Key}

theorem registers_empty : Registers ownKey [] (∅ : HashMap Key Row) where
  keyed := keyed_empty
  nodup := List.nodup_nil
  mem_iff row := by simp

theorem Registers.insert (h : Registers ownKey rows table) (hfresh : ownKey row ∉ table) :
    Registers ownKey (rows ++ [row]) (table.insert (ownKey row) row) where
  keyed := h.keyed.insert rfl
  nodup := by
    have hnew : ownKey row ∉ rows.map ownKey := by
      intro hmem
      obtain ⟨other, hother, hkey⟩ := List.mem_map.mp hmem
      exact hfresh (hkey ▸ Finmap.mem_of_lookup_eq_some ((h.mem_iff other).mp hother))
    rw [List.map_append, List.map_singleton]
    exact h.nodup.append (List.nodup_singleton _) (by simpa using hnew)
  mem_iff other := by
    rw [List.mem_append, List.mem_singleton, h.mem_iff, lookup_insert_eq_ite]
    by_cases hkey : ownKey other = ownKey row
    · have habsent : table.lookup (ownKey row) = none := Finmap.lookup_eq_none.mpr hfresh
      rw [if_pos hkey, hkey, habsent, Option.some_inj]
      simp [eq_comm]
    · have hne : other ≠ row := fun heq ↦ hkey (congrArg ownKey heq)
      rw [if_neg hkey, or_iff_left hne]

theorem Registers.remove (h : Registers ownKey rows table) (key : Key) :
    Registers ownKey (rows.filter (ownKey · ≠ key)) (table.erase key) where
  keyed := h.keyed.erase key
  nodup := h.nodup.sublist (List.filter_sublist.map ownKey)
  mem_iff row := by
    rw [List.mem_filter, h.mem_iff, lookup_erase_eq_ite]
    by_cases hkey : ownKey row = key
    · simp [hkey]
    · simp [hkey]

/-- A key is looked up among the rows. -/
theorem Registers.lookup_eq (h : Registers ownKey rows table) (key : Key) :
    table.lookup key = rows.find? (ownKey · = key) := by
  apply Option.ext
  intro row
  constructor
  · intro hrow
    have hkey : ownKey row = key := h.keyed key row hrow
    have hmem : row ∈ rows := (h.mem_iff row).mpr (hkey.symm ▸ hrow)
    have hfound : (rows.find? (ownKey · = key)).isSome = true :=
      List.find?_isSome.mpr ⟨row, hmem, decide_eq_true hkey⟩
    obtain ⟨found, hfind⟩ := Option.isSome_iff_exists.mp hfound
    have hother : ownKey found = key := of_decide_eq_true (List.find?_some hfind :)
    have hsame : found = row :=
      List.inj_on_of_nodup_map h.nodup (List.mem_of_find?_eq_some hfind) hmem (hother.trans hkey.symm)
    rw [hfind, hsame]
  · intro hfind
    have hkey : ownKey row = key := of_decide_eq_true (List.find?_some hfind :)
    exact hkey ▸ (h.mem_iff row).mp (List.mem_of_find?_eq_some hfind)

/-- The rows that a scan meets are the registered ones. -/
theorem Registers.perm (h : Registers ownKey rows table) {order : Listing Key Row}
    (horder : Enumerates order table) : (order.map (·.2)).Perm rows := by
  have hkey {entry : Sigma fun _ : Key ↦ Row} (hentry : entry ∈ order) :
      ownKey entry.2 = entry.1 := h.keyed entry.1 entry.2 (horder.mem_iff.mp hentry)
  have hnodup : (order.map (·.2)).Nodup := by
    apply horder.nodup.map_on
    intro entry hentry other hother hrow
    apply Sigma.ext
    · rw [← hkey hentry, ← hkey hother, hrow]
    · exact heq_of_eq hrow
  apply (List.perm_ext_iff_of_nodup hnodup h.nodup.of_map).mpr
  intro row
  rw [h.mem_iff, List.mem_map]
  constructor
  · rintro ⟨entry, hentry, rfl⟩
    rw [hkey hentry]
    exact horder.mem_iff.mp hentry
  · intro hrow
    exact ⟨⟨ownKey row, row⟩, horder.mem_iff.mpr hrow, rfl⟩

/-- So a scan lists each registered row of a kind once, and no other. -/
theorem Registers.perm_filter (h : Registers ownKey rows table) {order : Listing Key Row}
    (horder : Enumerates order table) (accepts : Row → Bool) :
    ((order.filter (accepts ·.2)).map (·.2)).Perm (rows.filter accepts) := by
  have hscan : (order.filter (accepts ·.2)).map (·.2) = (order.map (·.2)).filter accepts :=
    List.filter_map.symm
  rw [hscan]
  exact (h.perm horder).filter accepts

/-- A search by a scan finds a registered row of the kind. -/
theorem Registers.mem_of_find (h : Registers ownKey rows table) {order : Listing Key Row}
    (horder : Enumerates order table) (accepts : Row → Bool) {entry : Sigma fun _ : Key ↦ Row}
    (hfind : order.find? (accepts ·.2) = some entry) : entry.2 ∈ rows ∧ accepts entry.2 = true := by
  have hscanned : entry.2 ∈ order.map (·.2) := List.mem_map_of_mem (List.mem_of_find?_eq_some hfind)
  have haccepts := List.find?_some hfind
  exact ⟨(h.perm horder).mem_iff.mp hscanned, haccepts⟩

/-- It finds one when there is one. -/
theorem Registers.isSome_find_iff (h : Registers ownKey rows table) {order : Listing Key Row}
    (horder : Enumerates order table) (accepts : Row → Bool) :
    (order.find? (accepts ·.2)).isSome = true ↔ ∃ row ∈ rows, accepts row = true := by
  have hmem (row : Row) : row ∈ order.map (·.2) ↔ row ∈ rows := (h.perm horder).mem_iff
  rw [List.find?_isSome]
  constructor
  · rintro ⟨entry, hentry, haccepts⟩
    exact ⟨entry.2, (hmem entry.2).mp (List.mem_map_of_mem hentry), haccepts⟩
  · rintro ⟨row, hrow, haccepts⟩
    obtain ⟨entry, hentry, rfl⟩ := List.mem_map.mp ((hmem row).mpr hrow)
    exact ⟨entry, hentry, haccepts⟩

end Registers

/-! ## Runs -/

/-- A system whose calls change a registry of it in a known way, or not at all. -/
theorem registers_of_run {State Call : Type*} {step : State → Call → Option State}
    (ownKey : Row → Key) (table : State → HashMap Key Row) (change : Call → Option (Change Key Row))
    (hstep : ∀ state call next rows, step state call = some next →
      Registers ownKey rows (table state) →
      Registers ownKey (((change call).map (Change.record ownKey rows)).getD rows) (table next))
    {initial final : State} (hinitial : table initial = ∅) {calls : List Call}
    (hrun : run step initial calls = some final) :
    Registers ownKey (registered ownKey (calls.filterMap change)) (table final) := by
  have hstart : Registers ownKey (registered ownKey (([] : List Call).filterMap change))
      (table initial) := by
    rw [hinitial]
    exact registers_empty
  apply invariant_of_history step
    (fun past state ↦ Registers ownKey (registered ownKey (past.filterMap change)) (table state))
    ?_ hstart hrun
  intro past state call next h hnext
  have hafter := hstep state call next _ hnext h
  rw [List.filterMap_append]
  cases hchange : change call with
  | none => simpa [hchange] using hafter
  | some change =>
    rw [hchange] at hafter
    simpa [hchange, registered_concat] using hafter

end SolidCommunity.Foundations.UniqueIndex
