import SolidCommunity.ServerCore.Store

/-!
# The Order of Writes

Every put overwrites its own key and fills only absent ancestors, so a container ends up with its
explicit entry whether it was written before or after it was needed as an ancestor.  Puts of
different keys therefore commute, and a list of them has one result in every order.
-/

namespace SolidCommunity.ServerCore.WriteOrder

open Foundations.FiniteMap Foundations.Text LdpStore

/-- A call of `put`. -/
structure PutCall where
  path : Str
  body : Bytes
  contentType : Str

namespace PutCall

/-- The normalised key that the call writes. -/
def key (call : PutCall) : Str := LdpStore.key call.path

/-- The entry that the call stores. -/
def entry (call : PutCall) : Entry := ⟨call.body, call.contentType, endsWith call.key '/'⟩

def apply (store : LdpStore) (call : PutCall) : LdpStore :=
  (LdpStore.put store call.path call.body call.contentType).1

end PutCall

/-- The store after the calls, made from left to right. -/
def putAll (store : LdpStore) (calls : List PutCall) : LdpStore := calls.foldl PutCall.apply store

/-- A key holds what its put wrote, what it held before, or a container that the walk created. -/
theorem lookup_apply (store : LdpStore) (call : PutCall) (other : Str) :
    (call.apply store).lookup other =
      if other = call.key then some call.entry
      else (store.lookup other).or
        (if other ∈ ancestorKeys call.key then some emptyContainer else none) := by
  unfold PutCall.apply
  rw [lookup_put, lookup_ensureAncestors]
  rfl

/-- Two walks offer the same default, whichever comes first. -/
theorem or_emptyContainer_comm (first second : Prop) [Decidable first] [Decidable second] :
    (if first then some emptyContainer else none).or (if second then some emptyContainer else none) =
      (if second then some emptyContainer else none).or
        (if first then some emptyContainer else none) := by
  split
  · split
    · rfl
    · rfl
  · split
    · rfl
    · rfl

/-- Puts of different keys commute. -/
theorem apply_comm {first second : PutCall} (hne : first.key ≠ second.key) (store : LdpStore) :
    second.apply (first.apply store) = first.apply (second.apply store) := by
  apply Finmap.ext_lookup
  intro other
  rw [lookup_apply, lookup_apply, lookup_apply, lookup_apply]
  by_cases hfirst : other = first.key
  · have hsecond : other ≠ second.key := fun heq ↦ hne (hfirst.symm.trans heq)
    rw [if_pos hfirst, if_neg hsecond, if_pos hfirst, Option.some_or]
  · by_cases hsecond : other = second.key
    · rw [if_pos hsecond, if_neg hfirst, if_pos hsecond, Option.some_or]
    · rw [if_neg hfirst, if_neg hsecond, if_neg hfirst, if_neg hsecond, Option.or_assoc,
        Option.or_assoc, or_emptyContainer_comm]

theorem putAll_cons (store : LdpStore) (call : PutCall) (calls : List PutCall) :
    putAll store (call :: calls) = putAll (call.apply store) calls := rfl

/-- Puts whose normalised keys are pairwise distinct lead to the same store in every order. -/
theorem putAll_perm (store : LdpStore) {calls order : List PutCall}
    (hdistinct : (calls.map PutCall.key).Nodup) (hperm : calls.Perm order) :
    putAll store calls = putAll store order := by
  induction hperm generalizing store with
  | nil => rfl
  | cons call _ ih =>
    rw [List.map_cons, List.nodup_cons] at hdistinct
    rw [putAll_cons, putAll_cons, ih _ hdistinct.2]
  | swap first second rest =>
    have hne : second.key ≠ first.key := by
      intro heq
      rw [List.map_cons, List.map_cons, List.nodup_cons] at hdistinct
      exact hdistinct.1 (heq ▸ List.mem_cons_self)
    rw [putAll_cons, putAll_cons, putAll_cons, putAll_cons, apply_comm hne]
  | @trans calls middle order hfirst _ ih ih' =>
    calc putAll store calls
        = putAll store middle := ih store hdistinct
      _ = putAll store order := ih' store ((hfirst.map PutCall.key).nodup_iff.mp hdistinct)

/-- A container written before and after its member. -/
theorem putAll_perm_container :
    putAll LdpStore.new [⟨"/a/".toList, [1], []⟩, ⟨"/a/b".toList, [2], []⟩] =
      putAll LdpStore.new [⟨"/a/b".toList, [2], []⟩, ⟨"/a/".toList, [1], []⟩] :=
  putAll_perm LdpStore.new (by decide) (.swap _ _ _)

end SolidCommunity.ServerCore.WriteOrder
