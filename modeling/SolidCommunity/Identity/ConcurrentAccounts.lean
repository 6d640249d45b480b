import Mathlib.Logic.Function.Basic
import SolidCommunity.Identity.AccountExpiry

/-!
# Concurrent Accounts

A creation prunes in one section and inserts in another, a lookup of a setting prunes and reads, and
both read the clock before they prune.  Whatever other clients do in between and however old such a
reading is by then, an account with a login is never pruned, and every completed call about it
answers what the calls that completed before it have made of the account.
-/

namespace SolidCommunity.Identity.ConcurrentAccounts

open AccountStore Foundations.FiniteMap Foundations.Runs Foundations.Text

variable {Value : Type*}

/-! ## Calls -/

/-- A client's call; a creation comes with the id that it draws. -/
inductive Request (Value : Type*) where
  | create (id : Str)
  | incrementLoginCount (id : Str)
  | decrementLoginCount (id : Str)
  | getSetting (id setting : Str)
  | updateSetting (id setting : Str) (value : Value)
  | delete (id : Str)

/-- Where a call stands between two sections. -/
inductive CallState (Value : Type*) where
  | idle
  | called (request : Request Value)
  | pruningToCreate (id : Str) (now : Instant)
  | prunedToCreate (id : Str) (now : Instant)
  | inserting (id : Str) (now createdAt : Instant)
  | pruningToRead (id setting : Str) (now : Instant)
  | prunedToRead (id setting : Str) (now : Instant)
  | returned (call : Call Value) (outcome : Outcome Value)

/-- The second section of a creation. -/
def insertRow (store : BaseAccountStore Value) (id : Str) (createdAt : Instant) :
    BaseAccountStore Value :=
  store.setRow id ⟨id, 0, ∅, createdAt⟩

/-- The second section of a lookup. -/
def readSetting (store : BaseAccountStore Value) (id setting : Str) : Option Value :=
  (store.inner.lookup id).bind fun row ↦ row.settings.lookup setting

/-- The two sections of a creation that runs alone are the creation of the store. -/
theorem create_eq_sections (store : BaseAccountStore Value) (id : Str) (now createdAt : Instant) :
    store.create id now createdAt = (insertRow (store.pruneExpired now) id createdAt, id) := rfl

/-- The same of a lookup. -/
theorem getSetting_eq_sections (store : BaseAccountStore Value) (id setting : Str) (now : Instant) :
    store.getSetting id setting now =
      (store.pruneExpired now, readSetting (store.pruneExpired now) id setting) := rfl

/-- A call that completes, with the store that it leaves. -/
def finish (traced : Traced Value) (next : BaseAccountStore Value) (call : Call Value)
    (outcome : Outcome Value) : Traced Value × CallState Value :=
  (⟨next, (call, outcome) :: traced.history⟩, .returned call outcome)

/-- A call with one section. -/
def make (traced : Traced Value) (call : Call Value) : Option (Traced Value × CallState Value) :=
  (perform traced.store call).map fun result ↦ finish traced result.1 call result.2

/-- The next step of a call: a reading of the clock, or a section under the lock.  A generated id
was never generated before. -/
def advance (traced : Traced Value) (reading : Instant) :
    CallState Value → Option (Traced Value × CallState Value)
  | .called (.create id) => some (traced, .pruningToCreate id reading)
  | .pruningToCreate id now =>
    some ({ traced with store := traced.store.pruneExpired now }, .prunedToCreate id now)
  | .prunedToCreate id now => some (traced, .inserting id now reading)
  | .inserting id now createdAt =>
    if (traced.ledger id).created then none
    else some (finish traced (insertRow traced.store id createdAt) (.create id now createdAt)
      (.created id))
  | .called (.getSetting id setting) => some (traced, .pruningToRead id setting reading)
  | .pruningToRead id setting now =>
    some ({ traced with store := traced.store.pruneExpired now }, .prunedToRead id setting now)
  | .prunedToRead id setting now =>
    some (finish traced traced.store (.getSetting id setting now)
      (.setting (readSetting traced.store id setting)))
  | .called (.incrementLoginCount id) => make traced (.incrementLoginCount id)
  | .called (.decrementLoginCount id) => make traced (.decrementLoginCount id)
  | .called (.updateSetting id setting value) => make traced (.updateSetting id setting value)
  | .called (.delete id) => make traced (.delete id)
  | .idle | .returned _ _ => none

/-! ## Interleavings -/

variable {Client : Type*}

/-- The store with the calls that have completed, and the calls of the clients. -/
structure Configuration (Client Value : Type*) where
  traced : Traced Value
  calls : Client → CallState Value

/-- No client has called anything. -/
def Configuration.initial (Client Value : Type*) (expiry : Duration) : Configuration Client Value :=
  ⟨Traced.new expiry, fun _ ↦ .idle⟩

inductive Event (Client Value : Type*) where
  | invoke (client : Client) (request : Request Value)
  | proceed (client : Client) (reading : Instant)
  | complete (client : Client)

/-- One client takes one step; whatever the clock reads. -/
def step [DecidableEq Client] (configuration : Configuration Client Value) :
    Event Client Value → Option (Configuration Client Value)
  | .invoke client request =>
    match configuration.calls client with
    | .idle => some { configuration with
        calls := Function.update configuration.calls client (.called request) }
    | _ => none
  | .proceed client reading =>
    (advance configuration.traced reading (configuration.calls client)).map fun result ↦
      ⟨result.1, Function.update configuration.calls client result.2⟩
  | .complete client =>
    match configuration.calls client with
    | .returned _ _ => some { configuration with
        calls := Function.update configuration.calls client .idle }
    | _ => none

/-! ## What the books say -/

/-- The books of an account after the calls so far, the latest first. -/
def books (history : List (Call Value × Outcome Value)) (id : Str) : Ledger Value :=
  history.foldr (fun entry ledger ↦ ledger.record id entry) Ledger.empty

/-- The account has had a login and was not deleted. -/
structure Linked (ledger : Ledger Value) : Prop where
  login : 0 < ledger.increments
  kept : ledger.deleted = false

/-- The answer to a call about an account with a login. -/
def answer (ledger : Ledger Value) : Call Value → Outcome Value
  | .create id _ _ => .created id
  | .getSetting _ setting _ => .setting (ledger.settings setting)
  | .decrementLoginCount _ =>
    if ledger.increments ≤ ledger.decrements + 1 then
      .unit (.error "An account needs at least 1 login method.".toList)
    else .unit (.ok ())
  | .incrementLoginCount _ | .updateSetting _ _ _ | .delete _ => .unit (.ok ())

/-- A call about an account with a login has answered what the books say. -/
def Answered (past : List (Call Value × Outcome Value)) (entry : Call Value × Outcome Value) :
    Prop :=
  ∀ id, entry.1.target = some id → Linked (books past id) → entry.2 = answer (books past id) entry.1

/-- The row of an account with a login. -/
structure IsRow (ledger : Ledger Value) (row : AccountRow Value) : Prop where
  count : row.linkedLoginsCount + ledger.decrements = ledger.increments
  positive : 1 ≤ row.linkedLoginsCount
  settings : ∀ setting, row.settings.lookup setting = ledger.settings setting

section Rows

variable {store : BaseAccountStore Value} {ledger : Ledger Value} {id : Str}

/-- An account with a login is stored. -/
theorem exists_isRow (h : Agrees (store.inner.lookup id) ledger) (hlinked : Linked ledger) :
    ∃ row, store.inner.lookup id = some row ∧ IsRow ledger row := by
  have hlogin := hlinked.login
  have hkept := hlinked.kept
  generalize hrow : store.inner.lookup id = stored at h
  cases h with
  | unknown => exact absurd hlogin (Nat.lt_irrefl 0)
  | lost created reason =>
    rcases reason with hdeleted | hnever
    · simp [hdeleted] at hkept
    · exact absurd hnever (Nat.ne_of_gt hlogin)
  | @stored row ledger balanced =>
    exact ⟨row, rfl, balanced.count, balanced.positive hlogin, balanced.settings⟩

/-- A setting of an account with a login is read as it was last updated. -/
theorem readSetting_of_linked (h : Agrees (store.inner.lookup id) ledger) (hlinked : Linked ledger)
    (setting : Str) : readSetting store id setting = ledger.settings setting := by
  obtain ⟨row, hrow, hisRow⟩ := exists_isRow h hlinked
  calc readSetting store id setting
      = row.settings.lookup setting := by rw [readSetting, hrow, Option.bind_some]
    _ = ledger.settings setting := hisRow.settings setting

/-- A call with one section about an account with a login answers what the books say. -/
theorem answer_of_perform {call : Call Value} {result : BaseAccountStore Value × Outcome Value}
    (h : Agrees (store.inner.lookup id) ledger) (hlinked : Linked ledger)
    (hcall : call.changed = some id) (hperform : perform store call = some result) :
    result.2 = answer ledger call := by
  obtain ⟨next, outcome⟩ := result
  obtain ⟨row, hrow, hisRow⟩ := exists_isRow h hlinked
  have hcount := hisRow.count
  cases effect_of_perform hperform with
  | create | getSetting => simp [Call.changed] at hcall
  | @missing call other hother hnone =>
    obtain rfl := Option.some_inj.mp (hother.symm.trans hcall)
    rw [hrow] at hnone
    simp at hnone
  | increment | update | delete => rfl
  | @lastLogin other stored hstored hlast =>
    obtain rfl := Option.some_inj.mp hcall
    obtain rfl := Option.some_inj.mp (hrow.symm.trans hstored)
    have hbooks : ledger.increments ≤ ledger.decrements + 1 := by omega
    exact (if_pos hbooks).symm
  | @decrement other stored hstored hmore =>
    obtain rfl := Option.some_inj.mp hcall
    obtain rfl := Option.some_inj.mp (hrow.symm.trans hstored)
    have hbooks : ¬ ledger.increments ≤ ledger.decrements + 1 := by omega
    exact (if_neg hbooks).symm

end Rows

/-! ## Runs -/

/-- The books agree with the rows, and every completed call has answered what the books said. -/
structure Consistent (traced : Traced Value) : Prop where
  agrees : ∀ id, Agrees (traced.store.inner.lookup id) (traced.ledger id)
  answered : ∀ entry past, entry :: past <:+ traced.history → Answered past entry

theorem consistent_new (expiry : Duration) : Consistent (Traced.new expiry : Traced Value) where
  agrees _ := .unknown
  answered entry past hentry := by simp [Traced.new] at hentry

section Runs

variable {traced next : Traced Value} {state moved : CallState Value} {reading : Instant}

theorem Consistent.prune (h : Consistent traced) (now : Instant) :
    Consistent { traced with store := traced.store.pruneExpired now } where
  agrees id := (h.agrees id).pruneExpired now
  answered := h.answered

/-- A call that completes in agreement with the books. -/
theorem Consistent.finish (h : Consistent traced) {store : BaseAccountStore Value}
    {call : Call Value} {outcome : Outcome Value}
    (hagrees : ∀ id, Agrees (store.inner.lookup id) ((traced.ledger id).record id (call, outcome)))
    (hanswered : Answered traced.history (call, outcome)) :
    Consistent (finish traced store call outcome).1 where
  agrees := hagrees
  answered entry past hentry := by
    rcases List.suffix_cons_iff.mp hentry with hlatest | hearlier
    · obtain ⟨rfl, rfl⟩ := List.cons_eq_cons.mp hlatest
      exact hanswered
    · exact h.answered entry past hearlier

/-- What a client was answered is in the history. -/
def Recorded (history : List (Call Value × Outcome Value)) (state : CallState Value) : Prop :=
  ∀ call outcome, state = .returned call outcome → (call, outcome) ∈ history

/-- A step adds a completed call to the history, or leaves it. -/
structure Extends (traced next : Traced Value) (moved : CallState Value) : Prop where
  kept : traced.history <:+ next.history
  recorded : Recorded next.history moved

theorem extends_self {store : BaseAccountStore Value}
    (hmoved : ∀ call outcome, moved ≠ .returned call outcome) :
    Extends traced { traced with store := store } moved where
  kept := List.suffix_rfl
  recorded call outcome h := absurd h (hmoved call outcome)

theorem extends_finish (traced : Traced Value) (store : BaseAccountStore Value) (call : Call Value)
    (outcome : Outcome Value) :
    Extends traced (ConcurrentAccounts.finish traced store call outcome).1
      (ConcurrentAccounts.finish traced store call outcome).2 where
  kept := List.suffix_cons _ _
  recorded call outcome h := by
    obtain ⟨rfl, rfl⟩ := CallState.returned.inj h
    exact List.mem_cons_self

theorem Consistent.make (h : Consistent traced) {call : Call Value} {id : Str}
    (hcall : call.changed = some id)
    (hmake : ConcurrentAccounts.make traced call = some (next, moved)) :
    Consistent next ∧ Extends traced next moved := by
  obtain ⟨result, hperform, hfinish⟩ := Option.map_eq_some_iff.mp hmake
  obtain ⟨rfl, rfl⟩ := Prod.mk.inj hfinish
  have hgenerated : call.generated = none := by
    cases call with
    | create | getSetting => simp [Call.changed] at hcall
    | _ => rfl
  refine ⟨h.finish (fun id ↦ (h.agrees id).perform ?_ hperform) ?_, extends_finish _ _ _ _⟩
  · simp [hgenerated]
  · intro other htarget hlinked
    obtain rfl : id = other := Option.some_inj.mp ((Call.target_of_changed hcall).symm.trans htarget)
    exact answer_of_perform (h.agrees id) hlinked hcall hperform

/-- Every step of a call keeps the books in agreement. -/
theorem Consistent.advance (h : Consistent traced)
    (hadvance : ConcurrentAccounts.advance traced reading state = some (next, moved)) :
    Consistent next ∧ Extends traced next moved := by
  cases state with
  | idle | returned => simp [ConcurrentAccounts.advance] at hadvance
  | called request =>
    cases request with
    | create | getSetting =>
      cases hadvance
      exact ⟨h, extends_self (by simp)⟩
    | incrementLoginCount | decrementLoginCount | updateSetting | delete =>
      exact h.make rfl hadvance
  | pruningToCreate id now | pruningToRead id setting now =>
    cases hadvance
    exact ⟨h.prune now, extends_self (by simp)⟩
  | prunedToCreate id now =>
    cases hadvance
    exact ⟨h, extends_self (by simp)⟩
  | prunedToRead id setting now =>
    cases hadvance
    refine ⟨h.finish h.agrees ?_, extends_finish _ _ _ _⟩
    intro other htarget hlinked
    obtain rfl : id = other := Option.some_inj.mp htarget
    exact congrArg Outcome.setting (readSetting_of_linked (h.agrees id) hlinked setting)
  | inserting id now createdAt =>
    obtain ⟨hfresh, hfinish⟩ := Option.ite_none_left_eq_some.mp hadvance
    cases hfinish
    refine ⟨h.finish (fun other ↦ (h.agrees other).setRow fun hid ↦ ?_) ?_,
      extends_finish _ _ _ _⟩
    · subst hid
      rw [(h.agrees id).eq_empty (Bool.eq_false_of_not_eq_true hfresh)]
      exact balanced_create id createdAt
    · intro other htarget
      simp [Call.target] at htarget

end Runs

section Interleavings

variable [DecidableEq Client] {expiry : Duration} {configuration : Configuration Client Value}

/-- The store is consistent, and the clients were answered what is in its history. -/
structure Sound (configuration : Configuration Client Value) : Prop where
  consistent : Consistent configuration.traced
  recorded : ∀ client, Recorded configuration.traced.history (configuration.calls client)

/-- A client that starts or is over. -/
theorem Sound.setCall (h : Sound configuration) (client : Client) {state : CallState Value}
    (hstate : ∀ call outcome, state ≠ .returned call outcome) :
    Sound { configuration with calls := Function.update configuration.calls client state } where
  consistent := h.consistent
  recorded := (Function.forall_update_iff configuration.calls
    fun _ state ↦ Recorded configuration.traced.history state).mpr
      ⟨fun call outcome hreturned ↦ absurd hreturned (hstate call outcome),
        fun other _ ↦ h.recorded other⟩

theorem Sound.step {event : Event Client Value} {next : Configuration Client Value}
    (h : Sound configuration) (hstep : ConcurrentAccounts.step configuration event = some next) :
    Sound next := by
  cases event with
  | invoke client request =>
    simp only [ConcurrentAccounts.step] at hstep
    split at hstep
    · obtain rfl := Option.some_inj.mp hstep
      exact h.setCall client (by simp)
    · simp at hstep
  | complete client =>
    simp only [ConcurrentAccounts.step] at hstep
    split at hstep
    · obtain rfl := Option.some_inj.mp hstep
      exact h.setCall client (by simp)
    · simp at hstep
  | proceed client reading =>
    obtain ⟨⟨traced, moved⟩, hadvance, hnext⟩ := Option.map_eq_some_iff.mp hstep
    obtain rfl := hnext
    obtain ⟨hconsistent, hextends⟩ := h.consistent.advance hadvance
    refine ⟨hconsistent, (Function.forall_update_iff configuration.calls
      fun _ state ↦ Recorded traced.history state).mpr ⟨hextends.recorded, ?_⟩⟩
    intro other _ call outcome hreturned
    exact hextends.kept.subset (h.recorded other call outcome hreturned)

/-- In every interleaving, an account that has had a login and was not deleted is stored with the
logins and the settings that the completed calls have given it, and every completed call about such
an account answered what the calls that completed before it had made of the account. -/
theorem answered_of_reachable
    (hreachable : Reachable step (.initial Client Value expiry) configuration) :
    (∀ client, Recorded configuration.traced.history (configuration.calls client)) ∧
      (∀ entry past, entry :: past <:+ configuration.traced.history → Answered past entry) ∧
      ∀ id, Linked (configuration.traced.ledger id) →
        ∃ row, configuration.traced.store.inner.lookup id = some row ∧
          IsRow (configuration.traced.ledger id) row := by
  have h : Sound configuration := by
    apply invariant_of_reachable step Sound (fun _ _ _ h hstep ↦ h.step hstep) ?_ hreachable
    exact ⟨consistent_new expiry, fun client call outcome hreturned ↦ by
      simp [Configuration.initial] at hreturned⟩
  exact ⟨h.recorded, h.consistent.answered,
    fun id hlinked ↦ exists_isRow (h.consistent.agrees id) hlinked⟩

/-- A creation reads the clock long after the expiry of another account and prunes after that account
has got its login. -/
theorem answered_of_reachable_stale :
    ∃ final : Configuration Bool ℕ,
      run step (.initial Bool ℕ 5)
        [.invoke true (.create ['a']), .proceed true 0, .proceed true 0, .proceed true 0,
          .proceed true 0, .complete true, .invoke false (.create ['b']), .proceed false 100,
          .invoke true (.incrementLoginCount ['a']), .proceed true 100, .complete true,
          .proceed false 100, .invoke true (.updateSetting ['a'] ['s'] 7), .proceed true 101,
          .complete true] = some final ∧
      ∃ row, final.traced.store.inner.lookup ['a'] = some row ∧ row.settings.lookup ['s'] = some 7 := by
  obtain ⟨final, hrun, hlinked, hsetting⟩ : ∃ final : Configuration Bool ℕ,
      run step (.initial Bool ℕ 5)
        [.invoke true (.create ['a']), .proceed true 0, .proceed true 0, .proceed true 0,
          .proceed true 0, .complete true, .invoke false (.create ['b']), .proceed false 100,
          .invoke true (.incrementLoginCount ['a']), .proceed true 100, .complete true,
          .proceed false 100, .invoke true (.updateSetting ['a'] ['s'] 7), .proceed true 101,
          .complete true] = some final ∧
      Linked (final.traced.ledger ['a']) ∧ (final.traced.ledger ['a']).settings ['s'] = some 7 :=
    ⟨_, rfl, ⟨by decide, rfl⟩, rfl⟩
  obtain ⟨row, hrow, hisRow⟩ := (answered_of_reachable ⟨_, hrun⟩).2.2 ['a'] hlinked
  exact ⟨final, hrun, row, hrow, (hisRow.settings ['s']).trans hsetting⟩

end Interleavings

end SolidCommunity.Identity.ConcurrentAccounts
