import SolidCommunity.Foundations.Runs
import SolidCommunity.ServerCore.Store

/-!
# The Containment Tree

A resource name is the root or a nonempty list of nonempty, slash-free segments with an optional
closing slash.  On such names the ancestor walk of the store is explicit: it inserts one container
for every prefix of the parent segments, but the bounded split of the walk stops it after the first
98 of them.  The tree invariant, that every resource has its parent container stored, therefore
survives a step exactly when a write is at most 99 segments deep or finds its parent, and a deletion
does not remove the parent of a stored resource.
-/

namespace SolidCommunity.ServerCore.Containment

open Foundations.FiniteMap Foundations.Runs Foundations.Text LdpStore

/-- A path segment: nonempty and free of slashes. -/
abbrev Segment := { text : Str // text ≠ [] ∧ '/' ∉ text }

/-- The key of the container that the segments lead to. -/
def containerKey (segments : List Segment) : Str :=
  '/' :: segments.flatMap fun segment ↦ segment.val ++ ['/']

/-- The name of a resource below the segments of its parent. -/
inductive ResourceName where
  | root
  | child (parents : List Segment) (name : Segment) (closed : Bool)

/-- The store key that a resource name spells. -/
def ResourceName.key : ResourceName → Str
  | root => ['/']
  | child parents name closed => containerKey parents ++ name.val ++ if closed then ['/'] else []

/-- The number of segments of a resource name. -/
def ResourceName.depth : ResourceName → ℕ
  | root => 0
  | child parents _ _ => parents.length + 1

/-- The key cut after the last slash that precedes its final segment. -/
def parentKey (key : Str) : Str := (trimEndMatches key '/').rdropWhile (· != '/')

/-! ## Container keys -/

@[simp]
theorem containerKey_nil : containerKey [] = ['/'] := rfl

theorem containerKey_append (first second : List Segment) :
    containerKey (first ++ second) =
      containerKey first ++ second.flatMap fun segment ↦ segment.val ++ ['/'] := by
  simp [containerKey]

theorem containerKey_concat (parents : List Segment) (name : Segment) :
    containerKey (parents ++ [name]) = containerKey parents ++ name.val ++ ['/'] := by
  rw [containerKey_append]
  simp

theorem endsWith_containerKey (segments : List Segment) :
    endsWith (containerKey segments) '/' = true := by
  rcases List.eq_nil_or_concat segments with rfl | ⟨parents, name, rfl⟩
  · rfl
  · rw [List.concat_eq_append, containerKey_concat, endsWith_concat]
    rfl

theorem count_slash_containerKey (segments : List Segment) :
    (containerKey segments).count '/' = segments.length + 1 := by
  have hflat : (segments.flatMap fun segment ↦ segment.val ++ ['/']).count '/' =
      segments.length := by
    induction segments with
    | nil => rfl
    | cons segment segments ih =>
      rw [List.flatMap_cons, List.count_append, List.count_append, ih,
        List.count_eq_zero_of_not_mem segment.property.2, List.length_cons, List.count_singleton_self]
      omega
  rw [containerKey, List.count_cons_self, hflat]

/-- Appending a segment to a nonempty list closes a key that is not the doubled root. -/
theorem ancestorKey_containerKey (segments : List Segment) :
    ancestorKey (containerKey segments) = containerKey segments := by
  unfold ancestorKey
  split
  · next heq =>
    have hcount := count_slash_containerKey segments
    cases segments with
    | nil => simp at heq
    | cons segment segments =>
      have hlength := congrArg List.length heq
      have hne := List.length_pos_iff.mpr segment.property.1
      simp only [containerKey, List.flatMap_cons, List.length_cons, List.length_append,
        List.length_nil] at hlength
      omega
  · rfl

theorem pushPart_containerKey (parents : List Segment) (name : Segment) :
    pushPart (containerKey parents) name.val = containerKey (parents ++ [name]) := by
  rw [containerKey_concat, pushPart, if_neg (by simpa using name.property.1),
    endsWith_containerKey]
  rfl

/-! ## The walk on a resource name -/

theorem endsWith_append_segment (front : Str) (name : Segment) :
    endsWith (front ++ name.val) '/' = false := by
  rw [endsWith_append name.property.1]
  exact endsWith_eq_false_of_notMem name.property.2

/-- Trimming a name's key leaves the parent key and the final segment. -/
theorem trimEndMatches_child (parents : List Segment) (name : Segment) (closed : Bool) :
    trimEndMatches (ResourceName.child parents name closed).key '/' =
      containerKey parents ++ name.val := by
  have hopen := trimEndMatches_eq_self (endsWith_append_segment (containerKey parents) name)
  cases closed with
  | false => simpa [ResourceName.key] using hopen
  | true =>
    simp only [ResourceName.key, if_true]
    rw [trimEndMatches_concat, hopen]

theorem parentKey_child (parents : List Segment) (name : Segment) (closed : Bool) :
    parentKey (ResourceName.child parents name closed).key = containerKey parents := by
  have hall : ∀ c ∈ name.val.reverse, (c != '/') = true := by
    intro c hc
    have hne : c ≠ '/' := by
      rintro rfl
      exact name.property.2 (List.mem_reverse.mp hc)
    simpa using hne
  have hparent : (containerKey parents).rdropWhile (· != '/') = containerKey parents := by
    rw [List.rdropWhile_eq_self_iff]
    intro hne
    have hends := endsWith_containerKey parents
    rw [endsWith, List.getLast?_eq_getLast_of_ne_nil hne] at hends
    simpa using hends
  calc parentKey (ResourceName.child parents name closed).key
      = (containerKey parents ++ name.val).rdropWhile (· != '/') := by
        rw [parentKey, trimEndMatches_child]
    _ = (containerKey parents).rdropWhile (· != '/') := by
        unfold List.rdropWhile
        rw [List.reverse_append, List.dropWhile_append_of_pos hall]
    _ = containerKey parents := hparent

/-- The bounded split of a name keeps one piece for each of the first `limit` parents. -/
theorem dropLast_splitn (parents : List Segment) (name : Segment) (limit : ℕ) :
    (splitn '/' (limit + 1)
      ((parents.flatMap fun segment ↦ segment.val ++ ['/']) ++ name.val)).dropLast =
        (parents.take limit).map Subtype.val := by
  induction parents generalizing limit with
  | nil => simp [splitn_of_notMem name.property.2]
  | cons segment parents ih =>
    cases limit with
    | zero => simp
    | succ limit =>
      have hne := splitn_ne_nil '/' limit
        ((parents.flatMap fun segment ↦ segment.val ++ ['/']) ++ name.val)
      rw [List.flatMap_cons, List.append_assoc, List.append_assoc, List.singleton_append,
        splitn_append_cons segment.property.2, List.dropLast_cons_of_ne_nil hne, ih,
        List.take_succ_cons, List.map_cons]

theorem ancestorParts_child (parents : List Segment) (name : Segment) (closed : Bool) :
    ancestorParts (ResourceName.child parents name closed).key =
      [] :: (parents.take 98).map Subtype.val := by
  have hne := splitn_ne_nil '/' 98
    ((parents.flatMap fun segment ↦ segment.val ++ ['/']) ++ name.val)
  have hsplit : splitn '/' 100 (containerKey parents ++ name.val) =
      [] :: splitn '/' 99 ((parents.flatMap fun segment ↦ segment.val ++ ['/']) ++ name.val) :=
    splitn_append_cons List.not_mem_nil 98 _
  have hlength : 1 < (splitn '/' 100 (containerKey parents ++ name.val)).length := by
    rw [hsplit, List.length_cons]
    exact Nat.lt_add_of_pos_left (List.length_pos_iff.mpr hne)
  rw [ancestorParts, trimEndMatches_child, if_pos hlength, hsplit,
    List.dropLast_cons_of_ne_nil hne, dropLast_splitn]

theorem mem_ancestorKeysFrom {walked remaining : List Segment} {key : Str} :
    key ∈ ancestorKeysFrom (containerKey walked) (remaining.map Subtype.val) ↔
      ∃ front, front ≠ [] ∧ front <+: remaining ∧ key = containerKey (walked ++ front) := by
  induction remaining generalizing walked with
  | nil => simp [ancestorKeysFrom]
  | cons segment remaining ih =>
    rw [List.map_cons, ancestorKeysFrom, pushPart_containerKey, ancestorKey_containerKey,
      List.mem_cons, ih]
    constructor
    · rintro (rfl | ⟨front, hne, hle, rfl⟩)
      · exact ⟨[segment], by simp, by simp, rfl⟩
      · exact ⟨segment :: front, by simp, List.cons_prefix_cons.mpr ⟨rfl, hle⟩, by simp⟩
    · rintro ⟨front, hne, hle, rfl⟩
      cases front with
      | nil => exact absurd rfl hne
      | cons head front =>
        obtain ⟨rfl, htail⟩ := List.cons_prefix_cons.mp hle
        by_cases hfront : front = []
        · exact .inl (by rw [hfront])
        · exact .inr ⟨front, hfront, htail, by simp⟩

/-- The walk of a name ensures a container for each prefix of its first 98 parents. -/
theorem mem_ancestorKeys_child {parents : List Segment} {name : Segment} {closed : Bool}
    {key : Str} :
    key ∈ ancestorKeys (ResourceName.child parents name closed).key ↔
      ∃ front, front <+: parents.take 98 ∧ key = containerKey front := by
  rw [ancestorKeys, ancestorParts_child, ancestorKeysFrom, List.mem_cons]
  change key = ['/'] ∨ key ∈ ancestorKeysFrom (containerKey []) _ ↔ _
  rw [mem_ancestorKeysFrom]
  constructor
  · rintro (rfl | ⟨front, -, hle, rfl⟩)
    · exact ⟨[], List.nil_prefix, rfl⟩
    · exact ⟨front, hle, rfl⟩
  · rintro ⟨front, hle, rfl⟩
    by_cases hfront : front = []
    · exact .inl (by rw [hfront]; rfl)
    · exact .inr ⟨front, hfront, hle, rfl⟩

theorem mem_ancestorKeys_root {key : Str} :
    key ∈ ancestorKeys ResourceName.root.key ↔ key = ['/'] := by
  simp [show ancestorKeys ResourceName.root.key = [['/']] by rfl]

/-! ## The tree invariant -/

/-- A path whose key is the key of a resource name. -/
structure SegmentedPath where
  path : Str
  name : ResourceName
  key_eq : LdpStore.key path = name.key

/-- A mutating call on a segmented path. -/
inductive StoreCall where
  | put (path : SegmentedPath) (body : Bytes) (contentType : Str)
  | delete (path : SegmentedPath)

def StoreCall.apply (store : LdpStore) : StoreCall → LdpStore
  | put target body contentType => (LdpStore.put store target.path body contentType).1
  | delete target => (LdpStore.delete store target.path).1

/-- Every call can be made in every state. -/
def callStep (store : LdpStore) (call : StoreCall) : Option LdpStore := some (call.apply store)

/-- Every stored resource but the root has its parent stored, as a container. -/
def Contained (store : LdpStore) : Prop :=
  ∀ key ∈ store, key ≠ ['/'] →
    ∃ parent, store.lookup (parentKey key) = some parent ∧ parent.isContainer = true

/-- A write is shallow enough for the walk or finds its parent; a deletion leaves no orphan. -/
def Harmless (store : LdpStore) : StoreCall → Prop
  | .put target _ _ =>
    target.name.depth ≤ 99 ∨ parentKey (LdpStore.key target.path) ∈ store
  | .delete target =>
    ∀ child ∈ store, child ≠ ['/'] → parentKey child ≠ LdpStore.key target.path

/-- The containment invariant with the two facts that make it inductive. -/
structure TreeInvariant (store : LdpStore) : Prop where
  named : ∀ key ∈ store, ∃ name : ResourceName, key = name.key
  kinds : KindsAgree store
  parents : ∀ key ∈ store, key ≠ ['/'] → parentKey key ∈ store

theorem ResourceName.key_child_ne_root (parents : List Segment) (name : Segment) (closed : Bool) :
    (ResourceName.child parents name closed).key ≠ ['/'] := by
  intro heq
  have hlength := congrArg List.length heq
  have hname := List.length_pos_iff.mpr name.property.1
  simp only [ResourceName.key, containerKey, List.length_append, List.length_cons,
    List.length_nil] at hlength
  omega

/-- A parent's key is shorter than the key of its child. -/
theorem ResourceName.parentKey_child_ne (parents : List Segment) (name : Segment) (closed : Bool) :
    parentKey (ResourceName.child parents name closed).key ≠
      (ResourceName.child parents name closed).key := by
  intro heq
  have hlength := congrArg List.length heq
  have hname := List.length_pos_iff.mpr name.property.1
  rw [parentKey_child] at hlength
  simp only [ResourceName.key, List.length_append] at hlength
  omega

/-- A stored resource below the root lies in a container. -/
theorem TreeInvariant.contained {store : LdpStore} (h : TreeInvariant store) :
    Contained store := by
  intro key hkey hroot
  obtain ⟨parent, hparent⟩ := Finmap.mem_iff.mp (h.parents key hkey hroot)
  refine ⟨parent, hparent, ?_⟩
  rw [h.kinds _ _ hparent]
  obtain ⟨name, rfl⟩ := h.named key hkey
  cases name with
  | root => exact absurd rfl hroot
  | child parents name closed =>
    rw [parentKey_child]
    exact endsWith_containerKey parents

theorem treeInvariant_new : TreeInvariant LdpStore.new where
  named key hkey := by
    obtain ⟨entry, hentry⟩ := Finmap.mem_iff.mp hkey
    rw [lookup_new] at hentry
    exact ⟨.root, by by_contra hne; simp [ResourceName.key] at hne; simp [hne] at hentry⟩
  kinds := kindsAgree_new
  parents key hkey hroot := by
    obtain ⟨entry, hentry⟩ := Finmap.mem_iff.mp hkey
    rw [lookup_new, if_neg hroot] at hentry
    simp at hentry

/-- The keys that the walk ensures form a tree of their own. -/
theorem parentKey_mem_ancestorKeys {name : ResourceName} {key : Str}
    (hkey : key ∈ ancestorKeys name.key) (hroot : key ≠ ['/']) :
    (∃ ancestor : ResourceName, key = ancestor.key) ∧ parentKey key ∈ ancestorKeys name.key := by
  cases name with
  | root => exact absurd (mem_ancestorKeys_root.mp hkey) hroot
  | child parents name closed =>
    obtain ⟨front, hfront, rfl⟩ := mem_ancestorKeys_child.mp hkey
    rcases List.eq_nil_or_concat front with rfl | ⟨above, last, rfl⟩
    · exact absurd rfl hroot
    · rw [List.concat_eq_append] at hfront ⊢
      have hkey_eq : containerKey (above ++ [last]) = (ResourceName.child above last true).key := by
        rw [containerKey_concat]
        rfl
      rw [hkey_eq, parentKey_child]
      exact ⟨⟨_, rfl⟩, mem_ancestorKeys_child.mpr
        ⟨above, (List.prefix_append above [last]).trans hfront, rfl⟩⟩

/-- A shallow write ensures its own parent. -/
theorem parentKey_mem_of_depth_le {name : ResourceName} (hdepth : name.depth ≤ 99)
    (hroot : name.key ≠ ['/']) : parentKey name.key ∈ ancestorKeys name.key := by
  cases name with
  | root => exact absurd rfl hroot
  | child parents name closed =>
    have hlength : parents.length ≤ 98 := Nat.le_of_succ_le_succ hdepth
    rw [parentKey_child]
    exact mem_ancestorKeys_child.mpr ⟨parents, by rw [List.take_of_length_le hlength], rfl⟩

/-- A harmless call preserves the tree. -/
theorem TreeInvariant.apply {store : LdpStore} (h : TreeInvariant store) {call : StoreCall}
    (hharmless : Harmless store call) : TreeInvariant (call.apply store) where
  kinds := by
    cases call with
    | put target body contentType => exact h.kinds.put target.path body contentType
    | delete target => exact h.kinds.delete target.path
  named key hkey := by
    cases call with
    | put target body contentType =>
      rw [StoreCall.apply, mem_put, target.key_eq] at hkey
      rcases hkey with rfl | hkey | hkey
      · exact ⟨_, rfl⟩
      · exact h.named key hkey
      · by_cases hroot : key = ['/']
        · exact ⟨.root, hroot⟩
        · exact (parentKey_mem_ancestorKeys hkey hroot).1
    | delete target => exact h.named key (mem_delete.mp hkey).2
  parents key hkey hroot := by
    cases call with
    | put target body contentType =>
      rw [StoreCall.apply, mem_put, target.key_eq] at hkey ⊢
      rcases hkey with rfl | hkey | hkey
      · rcases hharmless with hdepth | hparent
        · exact .inr (.inr (parentKey_mem_of_depth_le hdepth hroot))
        · rw [target.key_eq] at hparent
          exact .inr (.inl hparent)
      · exact .inr (.inl (h.parents key hkey hroot))
      · exact .inr (.inr (parentKey_mem_ancestorKeys hkey hroot).2)
    | delete target =>
      obtain ⟨-, hkey⟩ := mem_delete.mp hkey
      exact mem_delete.mpr ⟨hharmless key hkey hroot, h.parents key hkey hroot⟩

/-- A deep write without a stored parent leaves its parent missing. -/
theorem parentKey_notMem_of_deep {name : ResourceName} (hdepth : 99 < name.depth) :
    parentKey name.key ≠ name.key ∧ parentKey name.key ∉ ancestorKeys name.key := by
  cases name with
  | root => simp [ResourceName.depth] at hdepth
  | child parents name closed =>
    refine ⟨ResourceName.parentKey_child_ne parents name closed, ?_⟩
    rw [parentKey_child]
    intro hmem
    obtain ⟨front, hfront, heq⟩ := mem_ancestorKeys_child.mp hmem
    have hcount := congrArg (List.count '/') heq
    have hle := hfront.length_le
    rw [count_slash_containerKey, count_slash_containerKey] at hcount
    rw [List.length_take] at hle
    simp only [ResourceName.depth] at hdepth
    omega

/-- In a tree, the harmless calls are exactly the ones that leave every resource its parent. -/
theorem TreeInvariant.harmless_iff {store : LdpStore} (h : TreeInvariant store)
    {call : StoreCall} : Harmless store call ↔ Contained (call.apply store) := by
  refine ⟨fun hharmless ↦ (h.apply hharmless).contained, fun hcontained ↦ ?_⟩
  cases call with
  | put target body contentType =>
    by_contra hdeep
    obtain ⟨hdepth, hparent⟩ := not_or.mp hdeep
    obtain ⟨hne, hwalk⟩ := parentKey_notMem_of_deep (Nat.lt_of_not_le hdepth)
    have hroot : target.name.key ≠ ['/'] := by
      intro hroot
      cases hname : target.name with
      | root => simp [hname, ResourceName.depth] at hdepth
      | child parents name closed =>
        rw [hname] at hroot
        exact ResourceName.key_child_ne_root parents name closed hroot
    have hstored : target.name.key ∈ (StoreCall.put target body contentType).apply store :=
      mem_put.mpr (.inl target.key_eq.symm)
    obtain ⟨parent, hlookup, -⟩ := hcontained _ hstored hroot
    have hmem := mem_put.mp (Finmap.mem_of_lookup_eq_some hlookup)
    rw [target.key_eq] at hmem hparent
    rcases hmem with heq | hmem | hmem
    · exact hne heq
    · exact hparent hmem
    · exact hwalk hmem
  | delete target =>
    intro child hchild hroot heq
    have hne : child ≠ LdpStore.key target.path := by
      rintro rfl
      obtain ⟨name, hname⟩ := h.named _ hchild
      cases name with
      | root => exact hroot hname
      | child parents name closed =>
        rw [hname] at heq
        exact ResourceName.parentKey_child_ne parents name closed heq
    obtain ⟨parent, hlookup, -⟩ := hcontained child (mem_delete.mpr ⟨hne, hchild⟩) hroot
    exact (mem_delete.mp (Finmap.mem_of_lookup_eq_some hlookup)).1 heq

/-- No state of a run from the new store orphans a resource exactly when every call is harmless. -/
theorem always_contained_iff (calls : List StoreCall) :
    Always callStep Contained LdpStore.new calls ↔
      EveryStep callStep Harmless LdpStore.new calls := by
  refine always_iff_everyStep callStep (fun _ h ↦ h.contained) ?_ ?_ treeInvariant_new calls
  · intro state call next hstate hcall hstep
    obtain rfl := Option.some_inj.mp hstep
    exact hstate.apply hcall
  · intro state call hstate hcall
    exact ⟨_, rfl, fun hcontained ↦ hcall (hstate.harmless_iff.mpr hcontained)⟩

/-- The document `/a/b` and its container `/a/`. -/
def documentPath : SegmentedPath where
  path := ['/', 'a', '/', 'b']
  name := .child [⟨['a'], by decide⟩] ⟨['b'], by decide⟩ false
  key_eq := rfl

def containerPath : SegmentedPath where
  path := ['/', 'a', '/']
  name := .child [] ⟨['a'], by decide⟩ true
  key_eq := rfl

/-- Deleting a container that still holds a document orphans the document. -/
theorem exists_run_not_contained :
    ∃ calls store, run callStep LdpStore.new calls = some store ∧ ¬ Contained store := by
  refine ⟨[.put documentPath [] [], .delete containerPath], _, rfl, fun hcontained ↦ ?_⟩
  obtain ⟨parent, hparent, -⟩ := hcontained ['/', 'a', '/', 'b'] (by decide) (by decide)
  exact absurd (Finmap.mem_of_lookup_eq_some hparent) (by decide)

end SolidCommunity.ServerCore.Containment
