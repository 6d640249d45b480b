import SolidCommunity.Foundations.FiniteMap
import SolidCommunity.Foundations.Text

/-!
# The In-Memory LDP Store

The store maps normalised URL paths to entries.  `put` has two sections, each under its own write
lock: `ensureAncestors` walks down the key and inserts every missing ancestor container, and
`insertEntry` then stores the entry itself.  The walk only ever depends on the key, so its effect on
the store is a default insertion under a list of keys that the key alone determines.
-/

namespace SolidCommunity.ServerCore

open Foundations.FiniteMap Foundations.Text

/-- One stored resource entry. -/
structure Entry where
  body : Bytes
  contentType : Str
  isContainer : Bool
deriving DecidableEq, Repr

/-- The map behind the store's lock. -/
abbrev LdpStore := HashMap Str Entry

/-- The entry of a container that was seeded or created implicitly. -/
def emptyContainer : Entry where
  body := []
  contentType := "text/turtle".toList
  isContainer := true

namespace LdpStore

/-- A new store, seeded with the root container. -/
def new : LdpStore := (∅ : LdpStore).insert ['/'] emptyContainer

/-- Normalise a URL path to a key, which always starts with `/`. -/
def key (path : Str) : Str := if startsWith path '/' then path else '/' :: path

def get (store : LdpStore) (path : Str) : Option Entry := store.lookup (key path)

/-- `LdpStore::exists`. -/
def existsAt (store : LdpStore) (path : Str) : Bool := key path ∈ store

/-- The pieces of the key that name its ancestors: at most 100, without the last one. -/
def ancestorParts (key : Str) : List Str :=
  let parts := splitn '/' 100 (trimEndMatches key '/')
  if parts.length > 1 then parts.dropLast else parts

/-- Extend the key under construction by one piece and a closing slash. -/
def pushPart (current part : Str) : Str :=
  if part.isEmpty then current ++ ['/']
  else (if !endsWith current '/' then current ++ ['/'] else current) ++ part ++ ['/']

/-- The key to insert, with the doubled root slash folded. -/
def ancestorKey (current : Str) : Str := if current = ['/', '/'] then ['/'] else current

/-- Ensure that every intermediate container of the key exists. -/
def ensureAncestors (store : LdpStore) (key : Str) : LdpStore :=
  ((ancestorParts key).foldl (fun state part ↦
    let current := pushPart state.1 part
    (current, orInsert state.2 (ancestorKey current) emptyContainer))
    (([], store) : Str × LdpStore)).2

/-- The second section of `put`: store the entry and report whether the key was absent. -/
def insertEntry (store : LdpStore) (key : Str) (body : Bytes) (contentType : Str) :
    LdpStore × Bool :=
  (store.insert key ⟨body, contentType, endsWith key '/'⟩, !decide (key ∈ store))

/-- Store a resource after its ancestors; `true` when it did not exist. -/
def put (store : LdpStore) (path : Str) (body : Bytes) (contentType : Str) : LdpStore × Bool :=
  insertEntry (ensureAncestors store (key path)) (key path) body contentType

/-- Delete a resource; `true` when it existed. -/
def delete (store : LdpStore) (path : Str) : LdpStore × Bool :=
  (store.erase (key path), decide (key path ∈ store))

def isContainer (path : Str) : Bool := endsWith (key path) '/'

/-! ## The ancestor walk -/

/-- The keys inserted by the walk from `current` through the remaining pieces. -/
def ancestorKeysFrom (current : Str) : List Str → List Str
  | [] => []
  | part :: parts =>
    ancestorKey (pushPart current part) :: ancestorKeysFrom (pushPart current part) parts

/-- The keys whose presence `ensureAncestors` ensures. -/
def ancestorKeys (key : Str) : List Str := ancestorKeysFrom [] (ancestorParts key)

/-- The walk inserts defaults under keys that do not depend on the store. -/
theorem foldl_walk (parts : List Str) (current : Str) (store : LdpStore) :
    (parts.foldl (fun state part ↦
      let current := pushPart state.1 part
      (current, orInsert state.2 (ancestorKey current) emptyContainer))
      ((current, store) : Str × LdpStore)).2 =
        orInsertAll store (ancestorKeysFrom current parts) emptyContainer := by
  induction parts generalizing current store with
  | nil => rfl
  | cons part parts ih => exact ih _ _

theorem ensureAncestors_eq (store : LdpStore) (key : Str) :
    ensureAncestors store key = orInsertAll store (ancestorKeys key) emptyContainer :=
  foldl_walk (ancestorParts key) [] store

/-- The ancestor walk fills absent ancestors and leaves everything else as it was. -/
theorem lookup_ensureAncestors (store : LdpStore) (key other : Str) :
    (ensureAncestors store key).lookup other =
      (store.lookup other).or (if other ∈ ancestorKeys key then some emptyContainer else none) := by
  rw [ensureAncestors_eq, lookup_orInsertAll]
  congr

theorem mem_ensureAncestors {store : LdpStore} {key other : Str} :
    other ∈ ensureAncestors store key ↔ other ∈ store ∨ other ∈ ancestorKeys key := by
  rw [ensureAncestors_eq, mem_orInsertAll]

theorem endsWith_pushPart (current part : Str) : endsWith (pushPart current part) '/' = true := by
  unfold pushPart
  split
  · simp
  · exact endsWith_concat _ '/' '/'

theorem endsWith_ancestorKey {current : Str} (h : endsWith current '/' = true) :
    endsWith (ancestorKey current) '/' = true := by
  unfold ancestorKey
  split
  · rfl
  · exact h

/-- The walk names containers only. -/
theorem endsWith_of_mem_ancestorKeys {key ancestor : Str} (h : ancestor ∈ ancestorKeys key) :
    endsWith ancestor '/' = true := by
  have hfrom (current : Str) (parts : List Str) :
      ∀ ancestor ∈ ancestorKeysFrom current parts, endsWith ancestor '/' = true := by
    induction parts generalizing current with
    | nil => simp [ancestorKeysFrom]
    | cons part parts ih =>
      intro ancestor hmem
      rcases List.mem_cons.mp hmem with rfl | hmem
      · exact endsWith_ancestorKey (endsWith_pushPart current part)
      · exact ih _ ancestor hmem
  exact hfrom [] (ancestorParts key) ancestor h

theorem startsWith_pushPart {current : Str} (h : current = [] ∨ startsWith current '/' = true)
    (part : Str) : startsWith (pushPart current part) '/' = true := by
  rcases h with rfl | h
  · unfold pushPart
    split <;> rfl
  · cases current with
    | nil => simp at h
    | cons first rest =>
      unfold pushPart
      split
      · simpa using h
      · split <;> simpa using h

theorem startsWith_ancestorKey {current : Str} (h : startsWith current '/' = true) :
    startsWith (ancestorKey current) '/' = true := by
  unfold ancestorKey
  split
  · rfl
  · exact h

/-- The walk names keys only. -/
theorem startsWith_of_mem_ancestorKeys {key ancestor : Str} (h : ancestor ∈ ancestorKeys key) :
    startsWith ancestor '/' = true := by
  have hfrom (parts : List Str) (current : Str)
      (hcurrent : current = [] ∨ startsWith current '/' = true) :
      ∀ ancestor ∈ ancestorKeysFrom current parts, startsWith ancestor '/' = true := by
    induction parts generalizing current with
    | nil => simp [ancestorKeysFrom]
    | cons part parts ih =>
      have hpushed := startsWith_pushPart hcurrent part
      intro ancestor hmem
      rcases List.mem_cons.mp hmem with rfl | hmem
      · exact startsWith_ancestorKey hpushed
      · exact ih _ (.inr hpushed) ancestor hmem
  exact hfrom (ancestorParts key) [] (.inl rfl) ancestor h

theorem isPrefix_ancestorKey (current : Str) : ancestorKey current <+: current := by
  unfold ancestorKey
  split
  · next heq =>
    rw [heq]
    exact List.prefix_append ['/'] ['/']
  · exact List.prefix_rfl

/-- Below a container the walk adds each piece and one slash. -/
theorem pushPart_of_endsWith {current : Str} (h : endsWith current '/' = true) (part : Str) :
    pushPart current part = current ++ (part ++ ['/']) := by
  unfold pushPart
  split
  · next hpart => simp [List.isEmpty_iff.mp hpart]
  · rw [h]
    simp

theorem isPrefix_of_mem_ancestorKeysFrom {parts : List Str} {current ancestor : Str}
    (hcurrent : endsWith current '/' = true) (h : ancestor ∈ ancestorKeysFrom current parts) :
    ancestor <+: current ++ parts.flatMap (· ++ ['/']) := by
  induction parts generalizing current with
  | nil => simp [ancestorKeysFrom] at h
  | cons part parts ih =>
    rw [List.flatMap_cons, ← List.append_assoc, ← pushPart_of_endsWith hcurrent]
    rcases List.mem_cons.mp h with rfl | h
    · exact (isPrefix_ancestorKey _).trans (List.prefix_append _ _)
    · exact ih (endsWith_pushPart current part) h

/-- Of a key made of slashes the walk names the root. -/
theorem ancestorKeys_of_trimEndMatches_eq_nil {key : Str} (h : trimEndMatches key '/' = []) :
    ancestorKeys key = [['/']] := by
  rw [ancestorKeys, ancestorParts, h]
  rfl

/-- Of any other key the walk names prefixes of what is left without the closing slashes. -/
theorem isPrefix_trimEndMatches_of_mem_ancestorKeys {key ancestor : Str}
    (hkey : startsWith key '/' = true) (hname : trimEndMatches key '/' ≠ [])
    (h : ancestor ∈ ancestorKeys key) : ancestor <+: trimEndMatches key '/' := by
  obtain ⟨rest, htrimmed⟩ : ∃ rest, trimEndMatches key '/' = '/' :: rest := by
    have hfront := isPrefix_trimEndMatches key '/'
    cases htrimmed : trimEndMatches key '/' with
    | nil => exact absurd htrimmed hname
    | cons first rest =>
      rw [htrimmed] at hfront
      obtain ⟨tail, rfl⟩ := hfront
      rw [List.cons_append, startsWith_cons, beq_iff_eq] at hkey
      exact ⟨rest, by rw [hkey]⟩
  -- The first piece is empty, and the remaining ones lie below the root.
  have hsplit : splitn '/' 100 ('/' :: rest) = [] :: splitn '/' 99 rest :=
    splitn_append_cons List.not_mem_nil 98 rest
  have hne := splitn_ne_nil '/' 98 rest
  have hparts : ancestorParts key = [] :: (splitn '/' 99 rest).dropLast := by
    rw [ancestorParts, htrimmed, hsplit, if_pos, List.dropLast_cons_of_ne_nil hne]
    rw [List.length_cons]
    exact Nat.lt_add_of_pos_left (List.length_pos_iff.mpr hne)
  rw [ancestorKeys, hparts] at h
  rw [htrimmed]
  rcases List.mem_cons.mp h with rfl | h
  · exact List.prefix_append ['/'] rest
  · calc ancestor
        <+: ['/'] ++ (splitn '/' 99 rest).dropLast.flatMap (· ++ ['/']) :=
          isPrefix_of_mem_ancestorKeysFrom rfl h
      _ <+: ['/'] ++ rest :=
          (List.prefix_append_right_inj _).mpr (isPrefix_flatMap_dropLast_splitn '/' 98 rest)

/-- The walk names prefixes of the key. -/
theorem isPrefix_of_mem_ancestorKeys {key ancestor : Str} (hkey : startsWith key '/' = true)
    (h : ancestor ∈ ancestorKeys key) : ancestor <+: key := by
  by_cases hname : trimEndMatches key '/' = []
  · rw [ancestorKeys_of_trimEndMatches_eq_nil hname, List.mem_singleton] at h
    rw [h]
    cases key with
    | nil => simp at hkey
    | cons first rest =>
      rw [startsWith_cons, beq_iff_eq] at hkey
      rw [hkey]
      exact List.prefix_append ['/'] rest
  · exact (isPrefix_trimEndMatches_of_mem_ancestorKeys hkey hname h).trans
      (isPrefix_trimEndMatches key '/')

/-- No ancestor is longer than its key. -/
theorem length_le_of_mem_ancestorKeys {key ancestor : Str} (hkey : startsWith key '/' = true)
    (h : ancestor ∈ ancestorKeys key) : ancestor.length ≤ key.length :=
  (isPrefix_of_mem_ancestorKeys hkey h).length_le

/-- The walk comes to the key itself only if the key is the root. -/
theorem mem_ancestorKeys_self_iff {key : Str} (hkey : startsWith key '/' = true) :
    key ∈ ancestorKeys key ↔ key = ['/'] := by
  constructor
  · intro h
    by_cases hname : trimEndMatches key '/' = []
    · rwa [ancestorKeys_of_trimEndMatches_eq_nil hname, List.mem_singleton] at h
    · have hsame : key = trimEndMatches key '/' :=
        (isPrefix_trimEndMatches_of_mem_ancestorKeys hkey hname h).eq_of_length_le
          (isPrefix_trimEndMatches key '/').length_le
      have hopen : endsWith key '/' = false := by
        rw [hsame]
        exact endsWith_trimEndMatches key '/'
      rw [endsWith_of_mem_ancestorKeys h] at hopen
      exact absurd hopen (by decide)
  · rintro rfl
    exact List.mem_singleton_self _

/-! ## What the operations do to single keys -/

@[simp]
theorem key_cons_slash (rest : Str) : key ('/' :: rest) = '/' :: rest := by
  simp [key]

theorem startsWith_key (path : Str) : startsWith (key path) '/' = true := by
  unfold key
  split
  · assumption
  · simp

theorem lookup_new (key : Str) :
    new.lookup key = if key = ['/'] then some emptyContainer else none := by
  rw [new, lookup_insert_eq_ite, Finmap.lookup_empty]

theorem lookup_insertEntry (store : LdpStore) (key other : Str) (body : Bytes) (contentType : Str) :
    (insertEntry store key body contentType).1.lookup other =
      if other = key then some ⟨body, contentType, endsWith key '/'⟩ else store.lookup other :=
  lookup_insert_eq_ite store key other _

theorem lookup_put (store : LdpStore) (path other : Str) (body : Bytes) (contentType : Str) :
    (put store path body contentType).1.lookup other =
      if other = key path then some ⟨body, contentType, endsWith (key path) '/'⟩
      else (ensureAncestors store (key path)).lookup other :=
  lookup_insertEntry _ _ _ _ _

theorem mem_put {store : LdpStore} {path other : Str} {body : Bytes} {contentType : Str} :
    other ∈ (put store path body contentType).1 ↔
      other = key path ∨ other ∈ store ∨ other ∈ ancestorKeys (key path) := by
  rw [put, insertEntry, Finmap.mem_insert, mem_ensureAncestors]

/-- A put changes nothing exactly when its entry and all its ancestors are stored already. -/
theorem put_eq_self_iff {store : LdpStore} {path : Str} {body : Bytes} {contentType : Str} :
    (put store path body contentType).1 = store ↔
      (∀ ancestor ∈ ancestorKeys (key path), ancestor ∈ store) ∧
        store.lookup (key path) = some ⟨body, contentType, endsWith (key path) '/'⟩ := by
  constructor
  · intro h
    refine ⟨fun ancestor hancestor ↦ ?_, ?_⟩
    · rw [← h]
      exact mem_put.mpr (.inr (.inr hancestor))
    · rw [← h, lookup_put, if_pos rfl]
  · rintro ⟨hancestors, hentry⟩
    apply Finmap.ext_lookup
    intro other
    rw [lookup_put, ensureAncestors_eq, orInsertAll_eq_self hancestors]
    split
    · next hother => rw [hother, hentry]
    · rfl

theorem mem_delete {store : LdpStore} {path other : Str} :
    other ∈ (delete store path).1 ↔ other ≠ key path ∧ other ∈ store :=
  Finmap.mem_erase

theorem lookup_delete (store : LdpStore) (path other : Str) :
    (delete store path).1.lookup other = if other = key path then none else store.lookup other :=
  lookup_erase_eq_ite store (key path) other

/-! ## Container flags -/

/-- Every entry's container flag says whether its key ends with a slash. -/
def KindsAgree (store : LdpStore) : Prop :=
  ∀ key entry, store.lookup key = some entry → entry.isContainer = endsWith key '/'

theorem kindsAgree_new : KindsAgree new := by
  intro key entry hentry
  rw [lookup_new] at hentry
  split at hentry
  · next heq =>
    obtain rfl := Option.some_inj.mp hentry
    rw [heq]
    rfl
  · simp at hentry

theorem KindsAgree.ensureAncestors {store : LdpStore} (h : KindsAgree store) (key : Str) :
    KindsAgree (LdpStore.ensureAncestors store key) := by
  intro other entry hentry
  rw [lookup_ensureAncestors, Option.or_eq_some_iff] at hentry
  rcases hentry with hstored | ⟨-, hfresh⟩
  · exact h other entry hstored
  · split at hfresh
    · next hancestor =>
      obtain rfl := Option.some_inj.mp hfresh
      exact (endsWith_of_mem_ancestorKeys hancestor).symm
    · simp at hfresh

theorem KindsAgree.insertEntry {store : LdpStore} (h : KindsAgree store) (key : Str)
    (body : Bytes) (contentType : Str) :
    KindsAgree (LdpStore.insertEntry store key body contentType).1 := by
  intro other entry hentry
  rw [lookup_insertEntry] at hentry
  split at hentry
  · next heq =>
    obtain rfl := Option.some_inj.mp hentry
    rw [heq]
  · exact h other entry hentry

theorem KindsAgree.put {store : LdpStore} (h : KindsAgree store) (path : Str) (body : Bytes)
    (contentType : Str) : KindsAgree (LdpStore.put store path body contentType).1 :=
  (h.ensureAncestors (key path)).insertEntry (key path) body contentType

theorem KindsAgree.delete {store : LdpStore} (h : KindsAgree store) (path : Str) :
    KindsAgree (LdpStore.delete store path).1 := by
  intro other entry hentry
  rw [lookup_delete] at hentry
  split at hentry
  · simp at hentry
  · exact h other entry hentry

end LdpStore

end SolidCommunity.ServerCore
