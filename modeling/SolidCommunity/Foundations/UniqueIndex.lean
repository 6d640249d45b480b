import SolidCommunity.Foundations.FiniteMap

/-!
# Tables with an Index

A table keeps its rows under keys of their own, and a scan meets them in an unspecified order.  A
value computed from the rows is a unique index when no two rows share it; a scan for one of its
values then finds the same row in every order.
-/

namespace SolidCommunity.Foundations.UniqueIndex

open FiniteMap

variable {Key Row Index : Type*} [DecidableEq Key]

/-- The rows with their keys, as an iteration meets them. -/
abbrev Listing (Key Row : Type*) := List (Sigma fun _ : Key ↦ Row)

/-- The listing has exactly the rows of the table. -/
def Enumerates (order : Listing Key Row) (table : HashMap Key Row) : Prop :=
  (order : Multiset (Sigma fun _ : Key ↦ Row)) = table.entries

instance [DecidableEq Row] (order : Listing Key Row) (table : HashMap Key Row) :
    Decidable (Enumerates order table) :=
  inferInstanceAs (Decidable ((order : Multiset (Sigma fun _ : Key ↦ Row)) = table.entries))

omit [DecidableEq Key] in
theorem exists_enumerates (table : HashMap Key Row) : ∃ order, Enumerates order table := by
  obtain ⟨order, rfl⟩ := exists_toFinmap_eq table
  exact ⟨order.entries, rfl⟩

/-- Every row is stored under its own key. -/
def Keyed (ownKey : Row → Key) (table : HashMap Key Row) : Prop :=
  ∀ key row, table.lookup key = some row → ownKey row = key

/-- No two rows share an index. -/
def Unique (index : Row → Index) (table : HashMap Key Row) : Prop :=
  ∀ ⦃key other row row'⦄, table.lookup key = some row → table.lookup other = some row' →
    index row = index row' → key = other

/-- No row has the index. -/
def Free (index : Row → Index) (table : HashMap Key Row) (value : Index) : Prop :=
  ∀ key row, table.lookup key = some row → index row ≠ value

instance [DecidableEq Index] (index : Row → Index) (table : HashMap Key Row) (value : Index) :
    Decidable (Free index table value) :=
  decidable_of_iff (∀ entry ∈ table.entries, index entry.2 ≠ value)
    ⟨fun h key row hrow ↦ h ⟨key, row⟩ (lookup_eq_some_iff_mem_entries.mp hrow),
      fun h entry hentry ↦ h entry.1 entry.2 (lookup_eq_some_iff_mem_entries.mpr hentry)⟩

section Keyed

variable {ownKey : Row → Key} {table : HashMap Key Row} {row : Row} {key : Key}

theorem keyed_empty : Keyed ownKey (∅ : HashMap Key Row) := by
  intro key row hrow
  simp at hrow

theorem Keyed.insert (h : Keyed ownKey table) (hkey : ownKey row = key) :
    Keyed ownKey (table.insert key row) := by
  intro other row' hrow
  rcases lookup_insert_cases hrow with ⟨rfl, rfl⟩ | ⟨-, hrow⟩
  · exact hkey
  · exact h other row' hrow

theorem Keyed.erase (h : Keyed ownKey table) (key : Key) : Keyed ownKey (table.erase key) := by
  intro other row hrow
  exact h other row (lookup_of_erase hrow).2

end Keyed

section Rows

variable {index : Row → Index} {table : HashMap Key Row} {key : Key} {row : Row}

theorem unique_empty : Unique index (∅ : HashMap Key Row) := by
  intro key other row row' hrow
  simp at hrow

/-- A unique index tells rows apart as their keys do. -/
theorem Unique.key_eq_iff (h : Unique index table) {other : Key} {row' : Row}
    (hrow : table.lookup key = some row) (hother : table.lookup other = some row') :
    key = other ↔ index row = index row' := by
  constructor
  · rintro rfl
    rw [Option.some_inj.mp (hrow.symm.trans hother)]
  · exact h hrow hother

/-- A row with a free index can be inserted under any key. -/
theorem Unique.insert (h : Unique index table) (hfree : Free index table (index row)) :
    Unique index (table.insert key row) := by
  intro first second row₁ row₂ hfirst hsecond hindex
  rcases lookup_insert_cases hfirst with ⟨hkey, rfl⟩ | ⟨-, hfirst⟩
  · rcases lookup_insert_cases hsecond with ⟨hkey', rfl⟩ | ⟨-, hsecond⟩
    · exact hkey.trans hkey'.symm
    · exact absurd hindex.symm (hfree second row₂ hsecond)
  · rcases lookup_insert_cases hsecond with ⟨-, rfl⟩ | ⟨-, hsecond⟩
    · exact absurd hindex (hfree first row₁ hfirst)
    · exact h hfirst hsecond hindex

/-- An insertion under a new key takes an index that has to be free. -/
theorem Unique.free_of_insert (hkey : key ∉ table) (h : Unique index (table.insert key row)) :
    Free index table (index row) := by
  intro other row' hother hindex
  have hsame : other = key :=
    h (lookup_insert_of_notMem hkey hother) (Finmap.lookup_insert _) hindex
  exact hkey (hsame ▸ Finmap.mem_of_lookup_eq_some hother)

theorem unique_insert_iff (hkey : key ∉ table) :
    Unique index (table.insert key row) ↔ Unique index table ∧ Free index table (index row) := by
  constructor
  · intro h
    refine ⟨fun first second row₁ row₂ hfirst hsecond ↦ ?_, h.free_of_insert hkey⟩
    exact h (lookup_insert_of_notMem hkey hfirst) (lookup_insert_of_notMem hkey hsecond)
  · exact fun h ↦ h.1.insert h.2

/-- A row can be replaced by one with its index. -/
theorem Unique.replace {old : Row} (h : Unique index table) (hold : table.lookup key = some old)
    (hindex : index row = index old) : Unique index (table.insert key row) := by
  -- Every row of the new table stands for one of the old table with its key and index.
  have hbefore {other : Key} {row' : Row}
      (hother : (table.insert key row).lookup other = some row') :
      ∃ before, table.lookup other = some before ∧ index before = index row' := by
    rcases lookup_insert_cases hother with ⟨rfl, rfl⟩ | ⟨-, hother⟩
    · exact ⟨old, hold, hindex.symm⟩
    · exact ⟨row', hother, rfl⟩
  intro first second row₁ row₂ hfirst hsecond hsame
  obtain ⟨before₁, hbefore₁, hindex₁⟩ := hbefore hfirst
  obtain ⟨before₂, hbefore₂, hindex₂⟩ := hbefore hsecond
  exact h hbefore₁ hbefore₂ (hindex₁.trans (hsame.trans hindex₂.symm))

theorem Unique.erase (h : Unique index table) (key : Key) : Unique index (table.erase key) := by
  intro first second row₁ row₂ hfirst hsecond hindex
  exact h (lookup_of_erase hfirst).2 (lookup_of_erase hsecond).2 hindex

end Rows

/-! ## Scans -/

section Scans

variable {index : Row → Index} {table : HashMap Key Row} {order : Listing Key Row}
  {accepts : Row → Bool} {entry : Sigma fun _ : Key ↦ Row}

theorem Enumerates.mem_iff (h : Enumerates order table) :
    entry ∈ order ↔ table.lookup entry.1 = some entry.2 := by
  rw [lookup_eq_some_iff_mem_entries, ← h, Multiset.mem_coe]

omit [DecidableEq Key] in
theorem Enumerates.nodup (h : Enumerates order table) : order.Nodup := by
  rw [← Multiset.coe_nodup, h]
  exact table.nodup_entries

/-- A scan finds a row of the table. -/
theorem Enumerates.of_find (h : Enumerates order table)
    (hfind : order.find? (accepts ·.2) = some entry) :
    table.lookup entry.1 = some entry.2 ∧ accepts entry.2 = true :=
  ⟨h.mem_iff.mp (List.mem_of_find?_eq_some hfind), by simpa using List.find?_some hfind⟩

/-- A scan finds nothing when no row is accepted. -/
theorem Enumerates.find_eq_none_iff (h : Enumerates order table) :
    order.find? (accepts ·.2) = none ↔
      ∀ key row, table.lookup key = some row → accepts row = false := by
  rw [List.find?_eq_none]
  constructor
  · intro hnone key row hrow
    simpa using hnone ⟨key, row⟩ (h.mem_iff.mpr hrow)
  · intro hnone entry hentry
    simp [hnone entry.1 entry.2 (h.mem_iff.mp hentry)]

/-- A scan for a value of a unique index finds the row that has it. -/
theorem Unique.find_eq_some_iff (h : Unique index table) (horder : Enumerates order table)
    {value : Index} (haccepts : ∀ row, accepts row = true ↔ index row = value) :
    order.find? (accepts ·.2) = some entry ↔
      table.lookup entry.1 = some entry.2 ∧ index entry.2 = value := by
  rw [← haccepts]
  constructor
  · exact horder.of_find
  · rintro ⟨hentry, haccepted⟩
    cases hfind : order.find? (accepts ·.2) with
    | none =>
      rw [horder.find_eq_none_iff.mp hfind entry.1 entry.2 hentry] at haccepted
      exact absurd haccepted Bool.false_ne_true
    | some found =>
      obtain ⟨hfound, haccepted'⟩ := horder.of_find hfind
      have hindex : index found.2 = index entry.2 :=
        ((haccepts found.2).mp haccepted').trans ((haccepts entry.2).mp haccepted).symm
      have hkey : found.1 = entry.1 := h hfound hentry hindex
      have hrow : found.2 = entry.2 := Option.some_inj.mp (hfound.symm.trans (hkey ▸ hentry))
      rw [Sigma.ext hkey (heq_of_eq hrow)]

/-- Such a scan does not depend on the order. -/
theorem Unique.find_eq (h : Unique index table) {other : Listing Key Row}
    (horder : Enumerates order table) (hother : Enumerates other table) {value : Index}
    (haccepts : ∀ row, accepts row = true ↔ index row = value) :
    order.find? (accepts ·.2) = other.find? (accepts ·.2) := by
  ext entry
  rw [h.find_eq_some_iff horder haccepts, h.find_eq_some_iff hother haccepts]

end Scans

end SolidCommunity.Foundations.UniqueIndex
