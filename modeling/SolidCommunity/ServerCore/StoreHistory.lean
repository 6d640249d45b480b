import SolidCommunity.Foundations.EntryEffects
import SolidCommunity.ServerCore.Mutation

/-!
# The Store as a Record of its History

A mutation treats every entry of the store on its own: it assigns the entry of the key that it
names, and fills the absent containers above it.  The store after any history is therefore read off
the history: an entry is what the latest mutation that names its key left, or a container that was
needed since.  A mutation adds few entries, however deep its path is.
-/

namespace SolidCommunity.ServerCore

open Foundations.EntryEffects Foundations.FiniteMap Foundations.Text

namespace Mutation

/-- The key that the mutation names. -/
def target : Mutation → Str
  | put path _ _ => LdpStore.key path
  | delete path => LdpStore.key path

/-- The containers that the mutation creates if they are absent. -/
def ensures : Mutation → List Str
  | put path _ _ => LdpStore.ancestorKeys (LdpStore.key path)
  | delete _ => []

/-- What the mutation leaves under the key that it names. -/
def written : Mutation → Option Entry
  | put path body contentType => some ⟨body, contentType, endsWith (LdpStore.key path) '/'⟩
  | delete _ => none

/-- What the mutation does to the entry of a key. -/
def effect (mutation : Mutation) (key : Str) : Effect Entry :=
  if key = mutation.target then .assign mutation.written
  else if key ∈ mutation.ensures then .ensure emptyContainer
  else .keep

/-- A mutation has one effect on each entry, whatever else is stored. -/
theorem pointwise_apply : Pointwise apply effect := by
  intro store mutation key
  unfold effect
  cases mutation with
  | put path body contentType =>
    rw [apply, LdpStore.lookup_put, LdpStore.lookup_ensureAncestors, target]
    by_cases htarget : key = LdpStore.key path
    · rw [if_pos htarget, if_pos htarget]
      rfl
    · rw [if_neg htarget, if_neg htarget, ensures]
      by_cases hancestor : key ∈ LdpStore.ancestorKeys (LdpStore.key path)
      · rw [if_pos hancestor, if_pos hancestor]
        rfl
      · rw [if_neg hancestor, if_neg hancestor, Option.or_none]
        rfl
  | delete path =>
    rw [apply, LdpStore.lookup_delete, target]
    by_cases htarget : key = LdpStore.key path
    · rw [if_pos htarget, if_pos htarget]
      rfl
    · rw [if_neg htarget, if_neg htarget, if_neg (by exact List.not_mem_nil)]
      rfl

/-- The store after the mutations, made from left to right. -/
def applyAll (store : LdpStore) (mutations : List Mutation) : LdpStore := mutations.foldl apply store

theorem applyAll_concat (store : LdpStore) (mutations : List Mutation) (mutation : Mutation) :
    applyAll store (mutations ++ [mutation]) = mutation.apply (applyAll store mutations) := by
  rw [applyAll, List.foldl_append]
  rfl

/-! ## Reading a history -/

/-- The latest mutation that names the key. -/
def latest (key : Str) (history : List Mutation) : Option Mutation :=
  history.reverse.find? (·.target = key)

/-- The mutations since then, the latest one first. -/
def since (key : Str) (history : List Mutation) : List Mutation :=
  history.reverse.takeWhile (·.target ≠ key)

/-- The entry that a history of a new store records under the key: what the latest put of the key
wrote, or an empty container if one was needed after the latest deletion.  Only the root is there
from the beginning. -/
def recorded (key : Str) (history : List Mutation) : Option Entry :=
  let needed := (since key history).any (key ∈ ·.ensures)
  match latest key history with
  | some (put path body contentType) => (put path body contentType).written
  | some (delete _) => if needed then some emptyContainer else none
  | none => if needed ∨ key = ['/'] then some emptyContainer else none

theorem latest_concat (key : Str) (history : List Mutation) (mutation : Mutation) :
    latest key (history ++ [mutation]) =
      if mutation.target = key then some mutation else latest key history := by
  rw [latest, List.reverse_append, List.reverse_singleton, List.singleton_append, List.find?_cons]
  by_cases hkey : mutation.target = key <;> simp [hkey, latest]

theorem since_concat (key : Str) (history : List Mutation) (mutation : Mutation) :
    since key (history ++ [mutation]) =
      if mutation.target = key then [] else mutation :: since key history := by
  rw [since, List.reverse_append, List.reverse_singleton, List.singleton_append,
    List.takeWhile_cons]
  by_cases hkey : mutation.target = key <;> simp [hkey, since]

/-- The record follows the mutations one by one. -/
theorem recorded_concat (key : Str) (history : List Mutation) (mutation : Mutation) :
    recorded key (history ++ [mutation]) = (mutation.effect key).act (recorded key history) := by
  unfold recorded
  rw [latest_concat, since_concat]
  by_cases hkey : mutation.target = key
  · rw [effect, if_pos hkey, if_pos hkey, if_pos hkey.symm]
    cases mutation <;> rfl
  · rw [effect, if_neg hkey, if_neg hkey, if_neg (Ne.symm hkey), List.any_cons]
    generalize (since key history).any (fun later ↦ decide (key ∈ later.ensures)) = needed
    by_cases hensures : key ∈ mutation.ensures
    · rw [if_pos hensures, decide_eq_true hensures, Bool.true_or]
      cases latest key history with
      | none => by_cases hbefore : needed ∨ key = ['/'] <;> simp [hbefore, Effect.act]
      | some named => cases named <;> cases needed <;> rfl
    · rw [if_neg hensures, decide_eq_false hensures, Bool.false_or]
      rfl

/-- The store after any history holds exactly what the history records. -/
theorem lookup_applyAll (history : List Mutation) (key : Str) :
    (applyAll LdpStore.new history).lookup key = recorded key history := by
  induction history using List.reverseRecOn with
  | nil =>
    rw [applyAll, List.foldl_nil, LdpStore.lookup_new]
    simp [recorded, latest, since]
  | append_singleton history mutation ih =>
    rw [applyAll_concat, pointwise_apply, recorded_concat, ih]

/-! ## The number of entries -/

def isPut : Mutation → Bool
  | put _ _ _ => true
  | delete _ => false

/-- The walk from a key names at most as many containers as the split gives pieces. -/
theorem length_ancestorKeys_le (key : Str) : (LdpStore.ancestorKeys key).length ≤ 99 := by
  have hfrom (parts : List Str) (current : Str) :
      (LdpStore.ancestorKeysFrom current parts).length = parts.length := by
    induction parts generalizing current with
    | nil => rfl
    | cons part parts ih => rw [LdpStore.ancestorKeysFrom, List.length_cons, ih, List.length_cons]
  have hpieces := length_splitn_le '/' 100 (trimEndMatches key '/')
  rw [LdpStore.ancestorKeys, hfrom, LdpStore.ancestorParts]
  split
  · rw [List.length_dropLast]
    omega
  · omega

/-- A put adds at most its own key and the containers above it. -/
theorem keys_apply_subset (store : LdpStore) (mutation : Mutation) :
    (mutation.apply store).keys ⊆
      store.keys ∪ (mutation.target :: mutation.ensures).toFinset := by
  intro key hkey
  rw [Finmap.mem_keys, ← Finmap.lookup_isSome, pointwise_apply, effect] at hkey
  rw [Finset.mem_union, List.mem_toFinset, List.mem_cons, Finmap.mem_keys, ← Finmap.lookup_isSome]
  split at hkey
  · next htarget => exact .inr (.inl htarget)
  · split at hkey
    · next hensures => exact .inr (.inr hensures)
    · exact .inl hkey

theorem card_apply_le (store : LdpStore) (mutation : Mutation) :
    (mutation.apply store).keys.card ≤ store.keys.card + if mutation.isPut then 100 else 0 := by
  cases mutation with
  | put path body contentType =>
    have hlength := length_ancestorKeys_le (LdpStore.key path)
    calc ((put path body contentType).apply store).keys.card
        ≤ (store.keys ∪ (LdpStore.key path :: LdpStore.ancestorKeys (LdpStore.key path)).toFinset).card :=
          Finset.card_le_card (keys_apply_subset store (put path body contentType))
      _ ≤ store.keys.card +
            (LdpStore.key path :: LdpStore.ancestorKeys (LdpStore.key path)).toFinset.card :=
          Finset.card_union_le _ _
      _ ≤ store.keys.card + 100 :=
          Nat.add_le_add_left ((List.toFinset_card_le _).trans (Nat.succ_le_succ hlength)) _
  | delete path =>
    apply Finset.card_le_card
    intro key hkey
    rw [Finmap.mem_keys] at hkey ⊢
    exact (LdpStore.mem_delete.mp hkey).2

/-- However deep the paths are, every put adds at most a hundred entries. -/
theorem card_applyAll_le (store : LdpStore) (history : List Mutation) :
    (applyAll store history).keys.card ≤ store.keys.card + 100 * history.countP isPut := by
  induction history using List.reverseRecOn with
  | nil => exact Nat.le_refl _
  | append_singleton history mutation ih =>
    have hstep := card_apply_le (applyAll store history) mutation
    rw [applyAll_concat, List.countP_append, List.countP_singleton]
    cases hput : mutation.isPut with
    | true =>
      rw [if_pos hput] at hstep
      rw [if_pos rfl]
      omega
    | false =>
      rw [if_neg (Bool.eq_false_iff.mp hput)] at hstep
      rw [if_neg Bool.false_ne_true]
      omega

end Mutation

end SolidCommunity.ServerCore
