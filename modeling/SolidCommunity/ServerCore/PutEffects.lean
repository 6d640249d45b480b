import SolidCommunity.ServerCore.Containment
import SolidCommunity.ServerCore.Mutation

/-!
# The Effects of a Put

A put writes its own key, and besides it only adds empty containers at prefixes of this key.  Below
the root these prefixes are all the containers above the key, up to the bound of the split.  The
key is tested after the prefixes have been added, so what a put reports is right unless one of them
is the key itself, which happens for the root alone.
-/

namespace SolidCommunity.ServerCore.PutEffects

open Foundations.FiniteMap Foundations.Runs Foundations.Text Http LdpHandlers LdpStore

/-! ## The frame -/

/-- What a put of a path turns a store into. -/
structure Framed (store : LdpStore) (path : Str) (body : Bytes) (contentType : Str)
    (after : LdpStore) : Prop where
  written : after.lookup (key path) = some ⟨body, contentType, endsWith (key path) '/'⟩
  kept : ∀ other entry, other ≠ key path → store.lookup other = some entry →
    after.lookup other = some entry
  added : ∀ other entry, other ≠ key path → other ∉ store → after.lookup other = some entry →
    (other <+: key path ∧ other.length < (key path).length) ∧ endsWith other '/' = true ∧
      entry = emptyContainer

/-- Whatever the path is, a put writes its key and adds empty containers above it. -/
theorem framed_put (store : LdpStore) (path : Str) (body : Bytes) (contentType : Str) :
    Framed store path body contentType (put store path body contentType).1 where
  written := by rw [lookup_put, if_pos rfl]
  kept other entry hother hentry := by
    rw [lookup_put, if_neg hother, lookup_ensureAncestors, hentry]
    rfl
  added other entry hother habsent hentry := by
    rw [lookup_put, if_neg hother, lookup_ensureAncestors, Finmap.lookup_eq_none.mpr habsent,
      Option.none_or, Option.ite_none_right_eq_some] at hentry
    obtain ⟨hancestor, hempty⟩ := hentry
    have hfront := isPrefix_of_mem_ancestorKeys (startsWith_key path) hancestor
    have hlength : other.length < (key path).length := by
      by_contra hle
      exact hother (hfront.eq_of_length_le (Nat.not_lt.mp hle))
    exact ⟨⟨hfront, hlength⟩, endsWith_of_mem_ancestorKeys hancestor,
      (Option.some_inj.mp hempty).symm⟩

/-! ## The containers above a key -/

section Ancestors

open Containment

/-- Every container above a resource is stored. -/
def AncestorsStored (store : LdpStore) (parents : List Segment) : Prop :=
  ∀ above, above <+: parents → containerKey above ∈ store

variable {store : LdpStore} {parents above : List Segment} {name : Segment} {closed : Bool}
  {body : Bytes} {contentType : Str}

theorem key_child (parents : List Segment) (name : Segment) (closed : Bool) :
    key (ResourceName.child parents name closed).key = (ResourceName.child parents name closed).key :=
  key_cons_slash _

/-- Each segment adds a slash, so a container is not above itself. -/
theorem containerKey_ne_key_child (h : above <+: parents) :
    containerKey above ≠ (ResourceName.child parents name closed).key := by
  intro heq
  have hcount := congrArg (List.count '/') heq
  have hlength := h.length_le
  have hsegment := List.count_eq_zero_of_not_mem name.property.2
  rw [count_slash_containerKey, ResourceName.key, List.count_append, List.count_append,
    count_slash_containerKey, hsegment] at hcount
  cases closed with
  | true =>
    simp only [if_true, List.count_singleton_self] at hcount
    omega
  | false =>
    have hends := endsWith_containerKey above
    rw [heq, ResourceName.key] at hends
    simp [endsWith_append_segment] at hends

/-- The walk stores the containers of up to 98 segments, and no others. -/
theorem containerKey_mem_put_iff (h : above <+: parents) :
    containerKey above ∈ (put store (ResourceName.child parents name closed).key body contentType).1 ↔
      containerKey above ∈ store ∨ above.length ≤ 98 := by
  rw [mem_put, key_child, mem_ancestorKeys_child, or_iff_right (containerKey_ne_key_child h)]
  apply or_congr_right
  constructor
  · rintro ⟨front, hfront, heq⟩
    have hcount := congrArg (List.count '/') heq
    have hlength := hfront.length_le
    rw [count_slash_containerKey, count_slash_containerKey] at hcount
    rw [List.length_take] at hlength
    omega
  · intro hlength
    exact ⟨above, List.prefix_take_iff.mpr ⟨h, hlength⟩, rfl⟩

/-- A deep container that is missing stays missing. -/
theorem not_ancestorsStored_put_of_deep (habove : above <+: parents) (hdeep : 99 ≤ above.length)
    (hmissing : containerKey above ∉ store) :
    ¬ AncestorsStored
      (put store (ResourceName.child parents name closed).key body contentType).1 parents := by
  intro hstored
  rcases (containerKey_mem_put_iff habove).mp (hstored above habove) with hbefore | hshallow
  · exact hmissing hbefore
  · omega

/-- After a put all containers above the key are stored exactly when those of 99 segments and more
were stored before. -/
theorem ancestorsStored_put_iff (store : LdpStore) (parents : List Segment) (name : Segment)
    (closed : Bool) (body : Bytes) (contentType : Str) :
    AncestorsStored
        (put store (ResourceName.child parents name closed).key body contentType).1 parents ↔
      ∀ above, above <+: parents → 99 ≤ above.length → containerKey above ∈ store := by
  constructor
  · intro hstored above habove hdeep
    by_contra hmissing
    exact not_ancestorsStored_put_of_deep habove hdeep hmissing hstored
  · intro hdeep above habove
    rw [containerKey_mem_put_iff habove]
    exact (Nat.lt_or_ge 98 above.length).imp (hdeep above habove) id

/-- The segments of the deepest container that the walk does not store. -/
def deepParents : List Segment := List.replicate 99 ⟨['d'], by decide⟩

theorem containerKey_deepParents_notMem : containerKey deepParents ∉ LdpStore.new := by
  intro hstored
  have hdeep : containerKey deepParents ≠ ['/'] := by
    intro hroot
    have hcount := congrArg (List.count '/') hroot
    rw [count_slash_containerKey, deepParents, List.length_replicate] at hcount
    exact absurd hcount (by decide)
  obtain ⟨entry, hentry⟩ := Finmap.mem_iff.mp hstored
  rw [lookup_new, if_neg hdeep] at hentry
  exact absurd hentry (by simp)

/-- A document of 100 segments in a new store has no parent. -/
theorem not_ancestorsStored_put :
    ¬ AncestorsStored (put LdpStore.new
      (ResourceName.child deepParents ⟨['b'], by decide⟩ false).key [] []).1 deepParents :=
  not_ancestorsStored_put_of_deep List.prefix_rfl (List.length_replicate ▸ le_rfl)
    containerKey_deepParents_notMem

end Ancestors

/-! ## The reported status -/

/-- A put reports that it created its resource exactly when a get would have found none; so does the
handler. -/
def Truthful (store : LdpStore) : Mutation → Prop
  | .put path body contentType =>
    (put store path body contentType).2 = (get store path).isNone ∧
      ∀ capture request, request.body = some body → writtenContentType request = contentType →
        resolvePath capture = path →
        (handlePut store capture request).2.status =
          if (get store path).isNone then StatusCode.created else StatusCode.noContent
  | .delete _ => True

/-- A put of the root finds it stored. -/
def FindsRoot (store : LdpStore) : Mutation → Prop
  | .put path _ _ => key path = ['/'] → ['/'] ∈ store
  | .delete _ => True

instance (store : LdpStore) (mutation : Mutation) : Decidable (FindsRoot store mutation) :=
  match mutation with
  | .put path _ _ => inferInstanceAs (Decidable (key path = ['/'] → ['/'] ∈ store))
  | .delete _ => instDecidableTrue

/-- The key is found absent after the walk exactly when the walk has not come to it. -/
theorem created_put_eq_iff (store : LdpStore) (path : Str) (body : Bytes) (contentType : Str) :
    (put store path body contentType).2 = (get store path).isNone ↔
      (key path = ['/'] → ['/'] ∈ store) := by
  have habsent : (get store path).isNone = !decide (key path ∈ store) := by
    rw [LdpStore.get, ← Option.not_isSome, Bool.eq_iff_iff, Bool.not_eq_true', Bool.not_eq_true',
      decide_eq_false_iff_not, ← Finmap.lookup_isSome, Bool.eq_false_iff]
  rw [put, insertEntry, habsent, Bool.not_inj_iff, decide_eq_decide, mem_ensureAncestors,
    mem_ancestorKeys_self_iff (startsWith_key path), or_iff_left_iff_imp]
  constructor
  · intro h hroot
    exact hroot ▸ h hroot
  · intro h hroot
    exact hroot ▸ h hroot

theorem truthful_iff (store : LdpStore) (mutation : Mutation) :
    Truthful store mutation ↔ FindsRoot store mutation := by
  cases mutation with
  | delete path => exact Iff.rfl
  | put path body contentType =>
    apply Iff.trans _ (created_put_eq_iff store path body contentType)
    apply and_iff_left_of_imp
    rintro hcreated capture request hbody rfl rfl
    rw [status_handlePut hbody, hcreated]

/-- The puts of a run from the new store report the truth exactly when none of them is of the root
while the root is deleted. -/
theorem everyStep_truthful_iff (mutations : List Mutation) :
    EveryStep mutationStep Truthful LdpStore.new mutations ↔
      EveryStep mutationStep FindsRoot LdpStore.new mutations := by
  constructor
  · intro h
    exact h.imp mutationStep fun store mutation ↦ (truthful_iff store mutation).mp
  · intro h
    exact h.imp mutationStep fun store mutation ↦ (truthful_iff store mutation).mpr

/-- A put that restores the deleted root reports that it was there. -/
theorem not_everyStep_truthful :
    ¬ EveryStep mutationStep Truthful LdpStore.new [.delete ['/'], .put ['/'] [] []] := by
  intro h
  have hput := (h.2 _ rfl).1.1
  exact absurd hput (by decide)

end SolidCommunity.ServerCore.PutEffects
