import SolidCommunity.Foundations.FiniteMap
import SolidCommunity.Foundations.Runs
import SolidCommunity.Foundations.Text

/-!
# Accounts

An account row counts its linked logins, and rows without a login are pruned once they are old
enough.  Pruning happens inside calls about other accounts.  The counter of an account that has had
a login never returns to zero, so such an account stays until it is deleted, whatever time passes.
-/

namespace SolidCommunity.Identity.AccountStore

open Foundations.FiniteMap Foundations.Runs Foundations.Text

/-- Nanoseconds of the monotonic clock. -/
abbrev Instant := ℕ

/-- Nanoseconds; `duration_since` is zero for a later instant, as the difference here is. -/
abbrev Duration := ℕ

/-- `usize::MAX`. -/
def usizeMax : ℕ := 2 ^ 64 - 1

structure AccountRow (Value : Type*) where
  id : Str
  linkedLoginsCount : ℕ
  settings : HashMap Str Value
  createdAt : Instant

/-- The rows under their ids, and the age at which a row without a login is pruned. -/
structure BaseAccountStore (Value : Type*) where
  inner : HashMap Str (AccountRow Value)
  expiry : Duration

/-- The error of a call about an unknown account. -/
def accountNotFound (id : Str) : Str := "account not found: ".toList ++ id

namespace BaseAccountStore

variable {Value : Type*}

def new (expiry : Duration) : BaseAccountStore Value := ⟨∅, expiry⟩

/-- Replace the row of an account. -/
def setRow (store : BaseAccountStore Value) (id : Str) (row : AccountRow Value) :
    BaseAccountStore Value :=
  { store with inner := store.inner.insert id row }

/-- Increment the counter; undefined when the addition overflows, which panics. -/
def incrementLoginCount (store : BaseAccountStore Value) (id : Str) :
    Option (BaseAccountStore Value × Except Str Unit) :=
  match store.inner.lookup id with
  | none => some (store, .error (accountNotFound id))
  | some row =>
    if row.linkedLoginsCount = usizeMax then none
    else some (store.setRow id { row with linkedLoginsCount := row.linkedLoginsCount + 1 }, .ok ())

/-- Decrement the counter, unless this would drop it below one. -/
def decrementLoginCount (store : BaseAccountStore Value) (id : Str) :
    BaseAccountStore Value × Except Str Unit :=
  match store.inner.lookup id with
  | none => (store, .error (accountNotFound id))
  | some row =>
    if row.linkedLoginsCount ≤ 1 then
      (store, .error "An account needs at least 1 login method.".toList)
    else (store.setRow id { row with linkedLoginsCount := row.linkedLoginsCount - 1 }, .ok ())

/-- A row survives pruning if it has a login or is young enough. -/
def survives (expiry : Duration) (now : Instant) (row : AccountRow Value) : Bool :=
  !(row.linkedLoginsCount == 0 && decide (expiry ≤ now - row.createdAt))

def pruneExpired (store : BaseAccountStore Value) (now : Instant) : BaseAccountStore Value :=
  { store with inner := retain store.inner fun _ row ↦ survives store.expiry now row }

/-- Create an account with the generated id; the clock is read for the pruning and for the row. -/
def create (store : BaseAccountStore Value) (id : Str) (now createdAt : Instant) :
    BaseAccountStore Value × Str :=
  ((store.pruneExpired now).setRow id ⟨id, 0, ∅, createdAt⟩, id)

def getSetting (store : BaseAccountStore Value) (id setting : Str) (now : Instant) :
    BaseAccountStore Value × Option Value :=
  let pruned := store.pruneExpired now
  (pruned, (pruned.inner.lookup id).bind fun row ↦ row.settings.lookup setting)

def updateSetting (store : BaseAccountStore Value) (id setting : Str) (value : Value) :
    BaseAccountStore Value × Except Str Unit :=
  match store.inner.lookup id with
  | none => (store, .error (accountNotFound id))
  | some row => (store.setRow id { row with settings := row.settings.insert setting value }, .ok ())

def delete (store : BaseAccountStore Value) (id : Str) : BaseAccountStore Value × Except Str Unit :=
  match store.inner.lookup id with
  | none => (store, .error (accountNotFound id))
  | some _ => ({ store with inner := store.inner.erase id }, .ok ())

end BaseAccountStore

/-! ## Runs and what they did to an account -/

inductive Call (Value : Type*) where
  | create (id : Str) (now createdAt : Instant)
  | incrementLoginCount (id : Str)
  | decrementLoginCount (id : Str)
  | getSetting (id setting : Str) (now : Instant)
  | updateSetting (id setting : Str) (value : Value)
  | delete (id : Str)

inductive Outcome (Value : Type*) where
  | created (id : Str)
  | unit (result : Except Str Unit)
  | setting (value : Option Value)

variable {Value : Type*}

/-- Make a call; undefined when it panics. -/
def perform (store : BaseAccountStore Value) :
    Call Value → Option (BaseAccountStore Value × Outcome Value)
  | .create id now createdAt =>
    let (after, id) := store.create id now createdAt
    some (after, .created id)
  | .incrementLoginCount id =>
    (store.incrementLoginCount id).map fun result ↦ (result.1, .unit result.2)
  | .decrementLoginCount id =>
    let (after, result) := store.decrementLoginCount id
    some (after, .unit result)
  | .getSetting id setting now =>
    let (after, value) := store.getSetting id setting now
    some (after, .setting value)
  | .updateSetting id setting value =>
    let (after, result) := store.updateSetting id setting value
    some (after, .unit result)
  | .delete id =>
    let (after, result) := store.delete id
    some (after, .unit result)

/-- What the successful calls so far did to one account. -/
structure Ledger (Value : Type*) where
  created : Bool
  increments : ℕ
  decrements : ℕ
  settings : Str → Option Value
  deleted : Bool

namespace Ledger

def empty : Ledger Value := ⟨false, 0, 0, fun _ ↦ none, false⟩

/-- Take one call about the account into the books. -/
def record (ledger : Ledger Value) (id : Str) : Call Value × Outcome Value → Ledger Value
  | (.create other _ _, .created _) =>
    if other = id then { ledger with created := true } else ledger
  | (.incrementLoginCount other, .unit (.ok ())) =>
    if other = id then { ledger with increments := ledger.increments + 1 } else ledger
  | (.decrementLoginCount other, .unit (.ok ())) =>
    if other = id then { ledger with decrements := ledger.decrements + 1 } else ledger
  | (.updateSetting other setting value, .unit (.ok ())) =>
    if other = id then
      { ledger with settings := Function.update ledger.settings setting (some value) }
    else ledger
  | (.delete other, .unit (.ok ())) =>
    if other = id then { ledger with deleted := true } else ledger
  | _ => ledger

end Ledger

/-- The store with its calls so far, the latest first. -/
structure Traced (Value : Type*) where
  store : BaseAccountStore Value
  history : List (Call Value × Outcome Value)

namespace Traced

def new (expiry : Duration) : Traced Value := ⟨BaseAccountStore.new expiry, []⟩

/-- The books of one account. -/
def ledger (traced : Traced Value) (id : Str) : Ledger Value :=
  traced.history.foldr (fun entry ledger ↦ ledger.record id entry) Ledger.empty

end Traced

/-- The id that a call generates. -/
def Call.generated : Call Value → Option Str
  | .create id _ _ => some id
  | _ => none

/-- One call; a generated id was never generated before. -/
def step (traced : Traced Value) (call : Call Value) : Option (Traced Value) :=
  if call.generated.any fun id ↦ (traced.ledger id).created then none
  else (perform traced.store call).map fun result ↦
    ⟨result.1, (call, result.2) :: traced.history⟩

/-- The account that a call changes in place. -/
def Call.changed : Call Value → Option Str
  | incrementLoginCount id => some id
  | decrementLoginCount id => some id
  | updateSetting id _ _ => some id
  | delete id => some id
  | _ => none

/-- Everything that one call can do. -/
inductive Effect (store : BaseAccountStore Value) :
    Call Value → BaseAccountStore Value → Outcome Value → Prop where
  | create (id : Str) (now createdAt : Instant) :
    Effect store (.create id now createdAt)
      ((store.pruneExpired now).setRow id ⟨id, 0, ∅, createdAt⟩) (.created id)
  | getSetting (id setting : Str) (now : Instant) :
    Effect store (.getSetting id setting now) (store.pruneExpired now)
      (.setting (store.getSetting id setting now).2)
  | missing {call : Call Value} {id : Str} (hcall : call.changed = some id)
    (hrow : store.inner.lookup id = none) :
    Effect store call store (.unit (.error (accountNotFound id)))
  | increment {id : Str} {row : AccountRow Value} (hrow : store.inner.lookup id = some row) :
    Effect store (.incrementLoginCount id)
      (store.setRow id { row with linkedLoginsCount := row.linkedLoginsCount + 1 }) (.unit (.ok ()))
  | lastLogin {id : Str} {row : AccountRow Value} (hrow : store.inner.lookup id = some row)
    (hcount : row.linkedLoginsCount ≤ 1) :
    Effect store (.decrementLoginCount id) store
      (.unit (.error "An account needs at least 1 login method.".toList))
  | decrement {id : Str} {row : AccountRow Value} (hrow : store.inner.lookup id = some row)
    (hcount : ¬ row.linkedLoginsCount ≤ 1) :
    Effect store (.decrementLoginCount id)
      (store.setRow id { row with linkedLoginsCount := row.linkedLoginsCount - 1 }) (.unit (.ok ()))
  | update {id : Str} {row : AccountRow Value} (hrow : store.inner.lookup id = some row)
    (setting : Str) (value : Value) :
    Effect store (.updateSetting id setting value)
      (store.setRow id { row with settings := row.settings.insert setting value }) (.unit (.ok ()))
  | delete {id : Str} {row : AccountRow Value} (hrow : store.inner.lookup id = some row) :
    Effect store (.delete id) { store with inner := store.inner.erase id } (.unit (.ok ()))

theorem effect_of_perform {store : BaseAccountStore Value} {call : Call Value}
    {result : BaseAccountStore Value × Outcome Value} (h : perform store call = some result) :
    Effect store call result.1 result.2 := by
  cases call with
  | create id now createdAt =>
    obtain rfl := Option.some_inj.mp h
    exact .create id now createdAt
  | getSetting id setting now =>
    obtain rfl := Option.some_inj.mp h
    exact .getSetting id setting now
  | incrementLoginCount id =>
    obtain ⟨called, hcalled, rfl⟩ := Option.map_eq_some_iff.mp h
    rw [BaseAccountStore.incrementLoginCount] at hcalled
    split at hcalled
    · next hrow =>
      obtain rfl := Option.some_inj.mp hcalled
      exact .missing rfl hrow
    · next row hrow =>
      obtain ⟨-, hcalled⟩ := Option.ite_none_left_eq_some.mp hcalled
      obtain rfl := Option.some_inj.mp hcalled
      exact .increment hrow
  | decrementLoginCount id =>
    obtain rfl := Option.some_inj.mp h
    dsimp only
    split
    · next hrow => exact .missing rfl hrow
    · next row hrow =>
      split
      · next hcount => exact .lastLogin hrow hcount
      · next hcount => exact .decrement hrow hcount
  | updateSetting id setting value =>
    obtain rfl := Option.some_inj.mp h
    dsimp only
    split
    · next hrow => exact .missing rfl hrow
    · next row hrow => exact .update hrow setting value
  | delete id =>
    obtain rfl := Option.some_inj.mp h
    dsimp only
    split
    · next hrow => exact .missing rfl hrow
    · next row hrow => exact .delete hrow

/-! ## The books agree with the rows -/

/-- A stored row says what the books of its account say. -/
structure Balanced (row : AccountRow Value) (ledger : Ledger Value) : Prop where
  created : ledger.created = true
  count : row.linkedLoginsCount + ledger.decrements = ledger.increments
  positive : 0 < ledger.increments → 0 < row.linkedLoginsCount
  settings : ∀ setting, row.settings.lookup setting = ledger.settings setting

/-- An account is unknown, or stored with balanced books, or was lost without ever losing a login
other than by deletion. -/
inductive Agrees : Option (AccountRow Value) → Ledger Value → Prop where
  | unknown : Agrees none Ledger.empty
  | stored {row ledger} (balanced : Balanced row ledger) : Agrees (some row) ledger
  | lost {ledger} (created : ledger.created = true)
    (reason : ledger.deleted = true ∨ ledger.increments = 0) : Agrees none ledger

section Calls

variable {store : BaseAccountStore Value} {row : AccountRow Value} {ledger : Ledger Value}
  {id other : Str}

theorem lookup_setRow (store : BaseAccountStore Value) (id other : Str) (row : AccountRow Value) :
    (store.setRow id row).inner.lookup other =
      if other = id then some row else store.inner.lookup other :=
  lookup_insert_eq_ite store.inner id other row

theorem lookup_pruneExpired (store : BaseAccountStore Value) (now : Instant) (id : Str) :
    (store.pruneExpired now).inner.lookup id =
      (store.inner.lookup id).filter (BaseAccountStore.survives store.expiry now) :=
  lookup_retain store.inner _ id

/-- A login keeps a row from being pruned. -/
theorem filter_survives_of_pos (h : 0 < row.linkedLoginsCount) (expiry : Duration) (now : Instant) :
    (some row).filter (BaseAccountStore.survives expiry now) = some row := by
  have hne : row.linkedLoginsCount ≠ 0 := Nat.ne_of_gt h
  simp [BaseAccountStore.survives, hne]

/-- Only an account that never had a login is pruned. -/
theorem Agrees.pruneExpired (h : Agrees (store.inner.lookup id) ledger) (now : Instant) :
    Agrees ((store.pruneExpired now).inner.lookup id) ledger := by
  rw [lookup_pruneExpired]
  generalize store.inner.lookup id = row at h
  cases h with
  | unknown => exact .unknown
  | lost created reason => exact .lost created reason
  | @stored row ledger balanced =>
    by_cases hpos : 0 < row.linkedLoginsCount
    · rw [filter_survives_of_pos hpos]
      exact .stored balanced
    · have hnever : ledger.increments = 0 :=
        Nat.eq_zero_of_not_pos fun hincrements ↦ hpos (balanced.positive hincrements)
      cases hkept : (some row).filter (BaseAccountStore.survives store.expiry now) with
      | none => exact .lost balanced.created (.inr hnever)
      | some kept =>
        obtain rfl : row = kept := Option.some_inj.mp (Option.mem_filter_iff.mp hkept).1
        exact .stored balanced

theorem Balanced.increment (h : Balanced row ledger) :
    Balanced { row with linkedLoginsCount := row.linkedLoginsCount + 1 }
      { ledger with increments := ledger.increments + 1 } where
  created := h.created
  count := by rw [Nat.add_right_comm, h.count]
  positive _ := Nat.succ_pos _
  settings := h.settings

/-- A decrement leaves at least one login. -/
theorem Balanced.decrement (h : Balanced row ledger) (hcount : ¬ row.linkedLoginsCount ≤ 1) :
    Balanced { row with linkedLoginsCount := row.linkedLoginsCount - 1 }
      { ledger with decrements := ledger.decrements + 1 } where
  created := h.created
  count := by
    have hbefore := h.count
    change row.linkedLoginsCount - 1 + (ledger.decrements + 1) = ledger.increments
    omega
  positive _ := Nat.sub_pos_of_lt (Nat.not_le.mp hcount)
  settings := h.settings

theorem Balanced.updateSetting (h : Balanced row ledger) (setting : Str) (value : Value) :
    Balanced { row with settings := row.settings.insert setting value }
      { ledger with settings := Function.update ledger.settings setting (some value) } where
  created := h.created
  count := h.count
  positive := h.positive
  settings other := by
    calc (row.settings.insert setting value).lookup other
        = if other = setting then some value else row.settings.lookup other :=
          lookup_insert_eq_ite row.settings setting other value
      _ = if other = setting then some value else ledger.settings other := by rw [h.settings]
      _ = Function.update ledger.settings setting (some value) other :=
          (Function.update_apply ledger.settings setting (some value) other).symm

theorem balanced_create (id : Str) (createdAt : Instant) :
    Balanced (⟨id, 0, ∅, createdAt⟩ : AccountRow Value) { Ledger.empty with created := true } where
  created := rfl
  count := rfl
  positive h := absurd h (Nat.lt_irrefl 0)
  settings setting := Finmap.lookup_empty setting

theorem Agrees.balanced (h : Agrees (store.inner.lookup id) ledger)
    (hrow : store.inner.lookup id = some row) : Balanced row ledger := by
  rw [hrow] at h
  cases h with
  | stored balanced => exact balanced

/-- A new row whose books are balanced; other accounts keep theirs. -/
theorem Agrees.setRow {changed : Ledger Value} (h : Agrees (store.inner.lookup id) ledger)
    (hbalanced : other = id → Balanced row changed) :
    Agrees ((store.setRow other row).inner.lookup id) (if other = id then changed else ledger) := by
  rw [lookup_setRow]
  by_cases hid : other = id
  · rw [if_pos hid.symm, if_pos hid]
    exact .stored (hbalanced hid)
  · rw [if_neg (Ne.symm hid), if_neg hid]
    exact h

/-- Books without a creation are empty. -/
theorem Agrees.eq_empty {row : Option (AccountRow Value)} (h : Agrees row ledger)
    (hcreated : ledger.created = false) : ledger = Ledger.empty := by
  cases h with
  | unknown => rfl
  | stored balanced => simp [balanced.created] at hcreated
  | lost created reason => simp [created] at hcreated

/-- A failed call leaves the books alone. -/
theorem Ledger.record_of_error (ledger : Ledger Value) (id : Str) (call : Call Value)
    (error : Str) : ledger.record id (call, .unit (.error error)) = ledger := by
  cases call <;> rfl

/-- A call keeps the books of every account in agreement with its row. -/
theorem Agrees.perform {call : Call Value} {result : BaseAccountStore Value × Outcome Value}
    (h : Agrees (store.inner.lookup id) ledger)
    (hfresh : call.generated = some id → ledger.created = false)
    (hperform : AccountStore.perform store call = some result) :
    Agrees (result.1.inner.lookup id) (ledger.record id (call, result.2)) := by
  obtain ⟨next, outcome⟩ := result
  cases effect_of_perform hperform with
  | create other now createdAt =>
    apply (h.pruneExpired now).setRow
    intro hid
    rw [h.eq_empty (hfresh (hid ▸ rfl))]
    exact balanced_create other createdAt
  | getSetting other setting now => exact h.pruneExpired now
  | missing =>
    rw [Ledger.record_of_error]
    exact h
  | increment hrow => exact h.setRow fun hid ↦ (h.balanced (hid ▸ hrow)).increment
  | lastLogin => exact h
  | decrement hrow hcount => exact h.setRow fun hid ↦ (h.balanced (hid ▸ hrow)).decrement hcount
  | update hrow setting value =>
    exact h.setRow fun hid ↦ (h.balanced (hid ▸ hrow)).updateSetting setting value
  | @delete other row hrow =>
    rw [Ledger.record, lookup_erase_eq_ite]
    by_cases hid : other = id
    · subst hid
      rw [if_pos rfl, if_pos rfl]
      exact .lost (h.balanced hrow).created (.inl rfl)
    · rw [if_neg (Ne.symm hid), if_neg hid]
      exact h

/-- A failed decrement changes nothing. -/
theorem decrementLoginCount_of_error {error : Str}
    (h : (store.decrementLoginCount id).2 = .error error) :
    (store.decrementLoginCount id).1 = store := by
  unfold BaseAccountStore.decrementLoginCount at h ⊢
  cases hrow : store.inner.lookup id with
  | none => rfl
  | some row =>
    by_cases hcount : row.linkedLoginsCount ≤ 1
    · simp only [if_pos hcount]
    · simp only [hrow, if_neg hcount, reduceCtorEq] at h

end Calls

/-! ## Accounts with a login -/

/-- The books of every account agree with its row in every run. -/
theorem agrees_of_reachable {expiry : Duration} {traced : Traced Value}
    (h : Reachable step (Traced.new expiry) traced) (id : Str) :
    Agrees (traced.store.inner.lookup id) (traced.ledger id) := by
  apply invariant_of_reachable step
    (fun traced : Traced Value ↦ ∀ id, Agrees (traced.store.inner.lookup id) (traced.ledger id))
    ?_ ?_ h
  · intro state call next hstate hstep id
    obtain ⟨hfresh, hstep⟩ := Option.ite_none_left_eq_some.mp hstep
    obtain ⟨result, hperform, rfl⟩ := Option.map_eq_some_iff.mp hstep
    apply (hstate id).perform _ hperform
    intro hgenerated
    simpa [hgenerated] using hfresh
  · intro id
    exact .unknown

/-- Once a login was added to an account, and until the account is deleted, its row is stored and
counts the added logins less the removed ones, at least one; no pruning removes it, settings read
back as they were last updated, and failed decrements change nothing. -/
theorem permanent_of_reachable {expiry : Duration} {traced : Traced Value}
    (hreachable : Reachable step (Traced.new expiry) traced) {id : Str}
    (hlogin : 0 < (traced.ledger id).increments) (hdeleted : (traced.ledger id).deleted = false) :
    (∃ row, traced.store.inner.lookup id = some row ∧
      row.linkedLoginsCount + (traced.ledger id).decrements = (traced.ledger id).increments ∧
      1 ≤ row.linkedLoginsCount ∧
      ∀ now, (traced.store.pruneExpired now).inner.lookup id = some row) ∧
    (∀ setting now,
      (traced.store.getSetting id setting now).2 = (traced.ledger id).settings setting) ∧
    ∀ error, (traced.store.decrementLoginCount id).2 = .error error →
      (traced.store.decrementLoginCount id).1 = traced.store := by
  have hagrees := agrees_of_reachable hreachable id
  obtain ⟨row, hrow⟩ : ∃ row, traced.store.inner.lookup id = some row := by
    cases hlookup : traced.store.inner.lookup id with
    | some row => exact ⟨row, rfl⟩
    | none =>
      rw [hlookup] at hagrees
      generalize traced.ledger id = ledger at hagrees hlogin hdeleted
      cases hagrees with
      | unknown => exact absurd hlogin (Nat.lt_irrefl 0)
      | lost created reason =>
        rcases reason with reason | reason
        · simp [reason] at hdeleted
        · exact absurd reason (Nat.ne_of_gt hlogin)
  have hbalanced := hagrees.balanced hrow
  have hpositive := hbalanced.positive hlogin
  have hkept (now : Instant) : (traced.store.pruneExpired now).inner.lookup id = some row := by
    rw [lookup_pruneExpired, hrow, filter_survives_of_pos hpositive]
  refine ⟨⟨row, hrow, hbalanced.count, hpositive, hkept⟩, fun setting now ↦ ?_,
    fun error ↦ decrementLoginCount_of_error⟩
  calc (traced.store.getSetting id setting now).2
      = ((traced.store.pruneExpired now).inner.lookup id).bind (·.settings.lookup setting) := rfl
    _ = row.settings.lookup setting := by rw [hkept, Option.bind_some]
    _ = (traced.ledger id).settings setting := hbalanced.settings setting

/-- An account that had two logins and kept one, long after the expiry. -/
theorem permanent_of_reachable_two_logins :
    ∃ traced, run step (Traced.new 5 : Traced Bool)
        [.create ['a'] 0 0, .incrementLoginCount ['a'], .incrementLoginCount ['a'],
          .decrementLoginCount ['a'], .updateSetting ['a'] ['s'] true, .create ['b'] 100 100,
          .getSetting ['b'] ['s'] 200] = some traced ∧
      (∃ row, traced.store.inner.lookup ['a'] = some row ∧ row.linkedLoginsCount + 1 = 2) ∧
      ∀ now, (traced.store.getSetting ['a'] ['s'] now).2 = some true := by
  obtain ⟨traced, hrun, hincrements, hdecrements, hdeleted, hupdated⟩ :
      ∃ traced, run step (Traced.new 5 : Traced Bool)
          [.create ['a'] 0 0, .incrementLoginCount ['a'], .incrementLoginCount ['a'],
            .decrementLoginCount ['a'], .updateSetting ['a'] ['s'] true, .create ['b'] 100 100,
            .getSetting ['b'] ['s'] 200] = some traced ∧
        (traced.ledger ['a']).increments = 2 ∧ (traced.ledger ['a']).decrements = 1 ∧
        (traced.ledger ['a']).deleted = false ∧ (traced.ledger ['a']).settings ['s'] = some true :=
    ⟨_, rfl, rfl, rfl, rfl, rfl⟩
  have hlogin : 0 < (traced.ledger ['a']).increments := by
    rw [hincrements]
    decide
  obtain ⟨⟨row, hrow, hcount, -⟩, hsettings, -⟩ :=
    permanent_of_reachable ⟨_, hrun⟩ hlogin hdeleted
  rw [hincrements, hdecrements] at hcount
  exact ⟨traced, hrun, ⟨row, hrow, hcount⟩, fun now ↦ (hsettings ['s'] now).trans hupdated⟩

end SolidCommunity.Identity.AccountStore
