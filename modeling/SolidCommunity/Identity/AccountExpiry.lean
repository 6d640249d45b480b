import Mathlib.Data.Finset.Union
import Mathlib.Data.Option.Defs
import SolidCommunity.Identity.AccountStore

/-!
# Expired Accounts

An account that got no login before its expiry is to be gone, but its row stays until some call
prunes it.  A creation and a lookup prune first; the four calls that change an account do not, so to
them such an account is only gone if another call came before.
-/

namespace SolidCommunity.Identity.AccountStore

open Foundations.FiniteMap Foundations.Runs Foundations.Text

variable {Value : Type*}

/-! ## Timed runs -/

/-- The store, the clock, when the accounts were created, and those that got a login in time. -/
structure Timed (Value : Type*) where
  store : BaseAccountStore Value
  clock : Instant
  born : HashMap Str Instant
  timely : Finset Str

def Timed.initial (expiry : Duration) : Timed Value := ⟨BaseAccountStore.new expiry, 0, ∅, ∅⟩

namespace Call

/-- The readings of the clock come after the start of the call. -/
def InOrder (started : Instant) : Call Value → Prop
  | create _ now createdAt => started ≤ now ∧ now ≤ createdAt
  | getSetting _ _ now => started ≤ now
  | _ => True

instance (started : Instant) : ∀ call : Call Value, Decidable (call.InOrder started)
  | create _ now createdAt => inferInstanceAs (Decidable (started ≤ now ∧ now ≤ createdAt))
  | getSetting _ _ now => inferInstanceAs (Decidable (started ≤ now))
  | incrementLoginCount _ | decrementLoginCount _ | updateSetting _ _ _ | delete _ =>
    inferInstanceAs (Decidable True)

/-- The latest reading of the clock. -/
def finishedAt (started : Instant) : Call Value → Instant
  | create _ _ createdAt => createdAt
  | getSetting _ _ now => now
  | _ => started

theorem InOrder.started_le {started : Instant} {call : Call Value} (h : call.InOrder started) :
    started ≤ call.finishedAt started := by
  cases call with
  | create id now createdAt => exact h.1.trans h.2
  | getSetting id setting now => exact h
  | _ => exact le_rfl

/-- The accounts with their times of creation after the call. -/
def bear (born : HashMap Str Instant) : Call Value → HashMap Str Instant
  | create id _ createdAt => born.insert id createdAt
  | _ => born

/-- The account to which the call added a login. -/
def linked : Call Value → Outcome Value → Option Str
  | incrementLoginCount id, .unit (.ok ()) => some id
  | _, _ => none

/-- The account that a call is addressed to. -/
def target : Call Value → Option Str
  | create _ _ _ => none
  | getSetting id _ _ => some id
  | call => call.changed

theorem changed_of_linked {call : Call Value} {outcome : Outcome Value} {id : Str}
    (h : call.linked outcome = some id) : call.changed = some id := by
  unfold linked at h
  split at h
  · exact h
  · simp at h

theorem target_of_changed {call : Call Value} {id : Str} (h : call.changed = some id) :
    call.target = some id := by
  cases call with
  | create | getSetting => simp [changed] at h
  | _ => exact h

theorem getSetting_or_changed_of_target {call : Call Value} {id : Str}
    (h : call.target = some id) :
    (∃ setting now, call = getSetting id setting now) ∨ call.changed = some id := by
  cases call with
  | create => simp [target] at h
  | getSetting other setting now =>
    obtain rfl := Option.some_inj.mp h
    exact .inl ⟨setting, now, rfl⟩
  | _ => exact .inr h

end Call

/-- One call, started at the given time; a generated id was never generated before. -/
def timedStep (timed : Timed Value) (label : Instant × Call Value) : Option (Timed Value) :=
  if timed.clock ≤ label.1 ∧ label.2.InOrder label.1 ∧
      ∀ id ∈ label.2.generated, id ∉ timed.born then
    (perform timed.store label.2).map fun result ↦
      { store := result.1
        clock := label.2.finishedAt label.1
        born := label.2.bear timed.born
        timely := timed.timely ∪ ((label.2.linked result.2).filter fun id ↦
          (timed.born.lookup id).any (label.1 < · + timed.store.expiry)).toFinset }
  else none

/-! ## Accounts that are gone -/

/-- The store as if the account had never been there. -/
def BaseAccountStore.without (store : BaseAccountStore Value) (id : Str) : BaseAccountStore Value :=
  { store with inner := store.inner.erase id }

/-- The call returns what it would return without the account, and does the same to the others. -/
def ActsAbsent (store : BaseAccountStore Value) (id : Str) (call : Call Value) : Prop :=
  (perform store call).map (fun result ↦ (result.1.without id, result.2)) =
    (perform (store.without id) call).map fun result ↦ (result.1.without id, result.2)

/-- A call at or after the expiry of an account that got no login in time acts as if the account did
not exist. -/
def Unusable (timed : Timed Value) (label : Instant × Call Value) : Prop :=
  ∀ id createdAt, label.2.target = some id → timed.born.lookup id = some createdAt →
    id ∉ timed.timely → createdAt + timed.store.expiry ≤ label.1 →
    ActsAbsent timed.store id label.2

/-- A call that changes an account in place finds no row that should have been pruned. -/
def FindsSurvivor (timed : Timed Value) (label : Instant × Call Value) : Prop :=
  ∀ id ∈ label.2.changed, ∀ row ∈ timed.store.inner.lookup id,
    BaseAccountStore.survives timed.store.expiry label.1 row = true

instance (timed : Timed Value) (label : Instant × Call Value) :
    Decidable (FindsSurvivor timed label) :=
  inferInstanceAs (Decidable (∀ id ∈ label.2.changed, ∀ row ∈ timed.store.inner.lookup id,
    BaseAccountStore.survives timed.store.expiry label.1 row = true))

section Absence

variable {store : BaseAccountStore Value} {call : Call Value} {id : Str} {row : AccountRow Value}

theorem perform_of_absent (hcall : call.changed = some id) (hrow : store.inner.lookup id = none) :
    perform store call = some (store, .unit (.error (accountNotFound id))) := by
  cases call with
  | create | getSetting => simp [Call.changed] at hcall
  | incrementLoginCount other =>
    obtain rfl := Option.some_inj.mp hcall
    simp [perform, BaseAccountStore.incrementLoginCount, hrow]
  | decrementLoginCount other =>
    obtain rfl := Option.some_inj.mp hcall
    simp [perform, BaseAccountStore.decrementLoginCount, hrow]
  | updateSetting other setting value =>
    obtain rfl := Option.some_inj.mp hcall
    simp [perform, BaseAccountStore.updateSetting, hrow]
  | delete other =>
    obtain rfl := Option.some_inj.mp hcall
    simp [perform, BaseAccountStore.delete, hrow]

/-- The error of a decrement that would drop the last login is not that of an unknown account. -/
theorem lastLogin_ne_accountNotFound (id : Str) :
    "An account needs at least 1 login method.".toList ≠ accountNotFound id := by
  intro h
  have hhead : some 'A' = some 'a' := congrArg List.head? h
  exact absurd hhead (by decide)

/-- A call that changes a stored account never reports that it is not found. -/
theorem outcome_ne_of_stored {result : BaseAccountStore Value × Outcome Value}
    (hcall : call.changed = some id) (hrow : store.inner.lookup id = some row)
    (hperform : perform store call = some result) :
    result.2 ≠ .unit (.error (accountNotFound id)) := by
  obtain ⟨next, outcome⟩ := result
  cases effect_of_perform hperform with
  | create | getSetting => simp [Call.changed] at hcall
  | missing hcall' hmissing =>
    obtain rfl := Option.some_inj.mp (hcall'.symm.trans hcall)
    simp [hmissing] at hrow
  | lastLogin => simpa using lastLogin_ne_accountNotFound id
  | increment | decrement | update | delete => simp

theorem eq_of_lookup {other : BaseAccountStore Value} (hexpiry : store.expiry = other.expiry)
    (h : ∀ id, store.inner.lookup id = other.inner.lookup id) : store = other := by
  cases store
  cases other
  rw [BaseAccountStore.mk.injEq]
  exact ⟨Finmap.ext_lookup h, hexpiry⟩

theorem lookup_without (store : BaseAccountStore Value) (id other : Str) :
    (store.without id).inner.lookup other =
      if other = id then none else store.inner.lookup other :=
  lookup_erase_eq_ite store.inner id other

theorem without_eq_self (hrow : store.inner.lookup id = none) : store.without id = store := by
  rw [BaseAccountStore.without, erase_eq_self (Finmap.lookup_eq_none.mp hrow)]

/-- An account that is not stored is absent. -/
theorem actsAbsent_of_absent (hrow : store.inner.lookup id = none) (call : Call Value) :
    ActsAbsent store id call := by
  rw [ActsAbsent, without_eq_self hrow]

/-- To a call that changes accounts in place, only an account that is not stored is absent. -/
theorem actsAbsent_iff (hcall : call.changed = some id) :
    ActsAbsent store id call ↔ store.inner.lookup id = none := by
  constructor
  · intro habsent
    cases hrow : store.inner.lookup id with
    | none => rfl
    | some row =>
      have hmissing : (store.without id).inner.lookup id = none :=
        Finmap.lookup_erase id store.inner
      rw [ActsAbsent, perform_of_absent hcall hmissing] at habsent
      cases hperform : perform store call with
      | none => simp [hperform] at habsent
      | some result =>
        rw [hperform] at habsent
        have houtcome : result.2 = .unit (.error (accountNotFound id)) :=
          congrArg Prod.snd (Option.some_inj.mp habsent)
        exact absurd houtcome (outcome_ne_of_stored hcall hrow hperform)
  · exact fun hrow ↦ actsAbsent_of_absent hrow call

/-- To a lookup, a row that its pruning removes is absent. -/
theorem actsAbsent_getSetting {now : Instant}
    (hrow : (store.pruneExpired now).inner.lookup id = none) (setting : Str) :
    ActsAbsent store id (.getSetting id setting now) := by
  have hmissing : ((store.without id).pruneExpired now).inner.lookup id = none := by
    rw [lookup_pruneExpired, BaseAccountStore.without, Finmap.lookup_erase]
    rfl
  have hpruned :
      (store.pruneExpired now).without id = ((store.without id).pruneExpired now).without id := by
    refine eq_of_lookup ?_ fun other ↦ ?_
    · rfl
    · rw [lookup_without, lookup_without, lookup_pruneExpired, lookup_pruneExpired, lookup_without]
      split <;> rfl
  simp only [ActsAbsent, perform, BaseAccountStore.getSetting, Option.map_some, hrow, hmissing,
    hpruned]

end Absence

/-! ## Rows and their times -/

section Rows

variable {store : BaseAccountStore Value} {call : Call Value} {id : Str} {row : AccountRow Value}
  {result : BaseAccountStore Value × Outcome Value}

theorem lookup_of_pruneExpired {now : Instant}
    (hrow : (store.pruneExpired now).inner.lookup id = some row) :
    store.inner.lookup id = some row := by
  rw [lookup_pruneExpired] at hrow
  exact (Option.mem_filter_iff.mp hrow).1

/-- A row is new, or comes from one that was created at the same time and had a login before unless
the call added one. -/
theorem origin_of_perform (hperform : perform store call = some result)
    (hrow : result.1.inner.lookup id = some row) :
    (∃ now, call = .create id now row.createdAt ∧ row.linkedLoginsCount = 0) ∨
      ∃ before, store.inner.lookup id = some before ∧ row.createdAt = before.createdAt ∧
        (0 < row.linkedLoginsCount ↔
          0 < before.linkedLoginsCount ∨ call.linked result.2 = some id) := by
  obtain ⟨next, outcome⟩ := result
  cases effect_of_perform hperform with
  | create other now createdAt =>
    rcases lookup_insert_cases hrow with ⟨rfl, rfl⟩ | ⟨-, hrow⟩
    · exact .inl ⟨now, rfl, rfl⟩
    · exact .inr ⟨row, lookup_of_pruneExpired hrow, rfl, by simp [Call.linked]⟩
  | getSetting other setting now =>
    exact .inr ⟨row, lookup_of_pruneExpired hrow, rfl, by simp [Call.linked]⟩
  | missing | lastLogin => exact .inr ⟨row, hrow, rfl, by simp [Call.linked]⟩
  | increment hbefore =>
    rcases lookup_insert_cases hrow with ⟨rfl, rfl⟩ | ⟨hid, hrow⟩
    · exact .inr ⟨_, hbefore, rfl, by simp [Call.linked]⟩
    · exact .inr ⟨row, hrow, rfl, by simp [Call.linked, Ne.symm hid]⟩
  | @decrement other before hbefore hcount =>
    rcases lookup_insert_cases hrow with ⟨rfl, rfl⟩ | ⟨-, hrow⟩
    · have hboth : 0 < before.linkedLoginsCount - 1 ↔ 0 < before.linkedLoginsCount := by omega
      exact .inr ⟨before, hbefore, rfl, by simpa [Call.linked] using hboth⟩
    · exact .inr ⟨row, hrow, rfl, by simp [Call.linked]⟩
  | update hbefore setting value =>
    rcases lookup_insert_cases hrow with ⟨rfl, rfl⟩ | ⟨-, hrow⟩
    · exact .inr ⟨_, hbefore, rfl, by simp [Call.linked]⟩
    · exact .inr ⟨row, hrow, rfl, by simp [Call.linked]⟩
  | delete => exact .inr ⟨row, (lookup_of_erase hrow).2, rfl, by simp [Call.linked]⟩

end Rows

/-- Every row has its time of creation, and a login exactly if the account got one in time. -/
structure Dated (timed : Timed Value) : Prop where
  stored : ∀ id row, timed.store.inner.lookup id = some row →
    timed.born.lookup id = some row.createdAt ∧ row.createdAt ≤ timed.clock ∧
      (0 < row.linkedLoginsCount ↔ id ∈ timed.timely)
  timely : ∀ id ∈ timed.timely, id ∈ timed.born

section Steps

variable {timed next : Timed Value} {label : Instant × Call Value} {id : Str}
  {row : AccountRow Value}

theorem dated_initial (expiry : Duration) : Dated (.initial expiry : Timed Value) where
  stored id row hrow := by simp [Timed.initial, BaseAccountStore.new] at hrow
  timely id hid := by simp [Timed.initial] at hid

/-- Everything that one call does to the store and the records. -/
theorem perform_of_timedStep (hstep : timedStep timed label = some next) :
    (timed.clock ≤ label.1 ∧ label.2.InOrder label.1 ∧ ∀ id ∈ label.2.generated, id ∉ timed.born) ∧
      ∃ outcome, perform timed.store label.2 = some (next.store, outcome) ∧
        next.clock = label.2.finishedAt label.1 ∧ next.born = label.2.bear timed.born ∧
        ∀ id, id ∈ next.timely ↔ id ∈ timed.timely ∨ (label.2.linked outcome = some id ∧
          ∃ createdAt, timed.born.lookup id = some createdAt ∧
            label.1 < createdAt + timed.store.expiry) := by
  obtain ⟨hlabel, hnext⟩ := Option.ite_none_right_eq_some.mp hstep
  obtain ⟨result, hperform, rfl⟩ := Option.map_eq_some_iff.mp hnext
  refine ⟨hlabel, result.2, hperform, rfl, rfl, fun id ↦ ?_⟩
  simp [Option.filter_eq_some_iff, Option.any_eq_true]

theorem lookup_bear (hfresh : ∀ id ∈ label.2.generated, id ∉ timed.born) {createdAt : Instant}
    (hborn : timed.born.lookup id = some createdAt) :
    (label.2.bear timed.born).lookup id = some createdAt := by
  obtain ⟨started, call⟩ := label
  cases call with
  | create other now createdAt => exact lookup_insert_of_notMem (hfresh other rfl) hborn
  | _ => exact hborn

/-- A row that survives has a login or is younger than the expiry. -/
theorem survives_iff {expiry : Duration} {now : Instant} (hcreated : row.createdAt ≤ now) :
    BaseAccountStore.survives expiry now row = true ↔
      0 < row.linkedLoginsCount ∨ now < row.createdAt + expiry := by
  have hage : expiry ≤ now - row.createdAt ↔ row.createdAt + expiry ≤ now :=
    Nat.le_sub_iff_add_le' hcreated
  simp [BaseAccountStore.survives, hage, Nat.pos_iff_ne_zero]

/-- Under the condition, a call that adds a login does so in time or not for the first time. -/
theorem Dated.timedStep (h : Dated timed) (hcondition : FindsSurvivor timed label)
    (hstep : AccountStore.timedStep timed label = some next) : Dated next := by
  obtain ⟨⟨hclock, horder, hfresh⟩, outcome, hperform, hclock', hborn', htimely'⟩ :=
    perform_of_timedStep hstep
  have hlater : timed.clock ≤ next.clock := by
    rw [hclock']
    exact hclock.trans horder.started_le
  constructor
  · intro id row hrow
    rcases origin_of_perform hperform hrow with
      ⟨now, hcall, hcount⟩ | ⟨before, hbefore, hcreated, hlogin⟩
    · have hnew : id ∉ timed.timely := fun hid ↦ hfresh id (by rw [hcall]; rfl) (h.timely id hid)
      refine ⟨?_, ?_, ?_⟩
      · rw [hborn', hcall]
        exact Finmap.lookup_insert timed.born
      · rw [hclock', hcall]
        exact le_rfl
      · rw [htimely', hcall, hcount]
        simp [Call.linked, hnew]
    · obtain ⟨hborn, hpast, htimely⟩ := h.stored id before hbefore
      rw [hborn', hcreated]
      refine ⟨lookup_bear hfresh hborn, hpast.trans hlater, ?_⟩
      rw [htimely', hlogin, htimely]
      constructor
      · rintro (hid | hlinked)
        · exact .inl hid
        · have hsurvives := hcondition id (Call.changed_of_linked hlinked) before hbefore
          rcases (survives_iff (hpast.trans hclock)).mp hsurvives with hlogins | hyoung
          · exact .inl (htimely.mp hlogins)
          · exact .inr ⟨hlinked, before.createdAt, hborn, hyoung⟩
      · exact Or.imp_right And.left
  · intro id hid
    have hborn : id ∈ timed.born := by
      rcases (htimely' id).mp hid with hid | ⟨-, createdAt, hborn, -⟩
      · exact h.timely id hid
      · exact Finmap.mem_of_lookup_eq_some hborn
    obtain ⟨createdAt, hcreated⟩ := Finmap.mem_iff.mp hborn
    rw [hborn']
    exact Finmap.mem_of_lookup_eq_some (lookup_bear hfresh hcreated)

/-- To a call that changes its account in place, an account that got no login in time is gone after
its expiry unless its row is still there. -/
theorem Dated.unusable_iff (h : Dated timed)
    (hstep : AccountStore.timedStep timed label = some next) :
    Unusable timed label ↔ FindsSurvivor timed label := by
  obtain ⟨⟨hclock, horder, -⟩, -⟩ := perform_of_timedStep hstep
  constructor
  · intro hunusable id hchanged row hrow
    obtain ⟨hborn, hpast, htimely⟩ := h.stored id row hrow
    rw [survives_iff (hpast.trans hclock)]
    by_contra! hexpired
    have habsent := hunusable id row.createdAt (Call.target_of_changed hchanged) hborn
      (fun hid ↦ absurd (htimely.mpr hid) (Nat.not_lt.mpr hexpired.1)) hexpired.2
    rw [actsAbsent_iff hchanged, hrow] at habsent
    simp at habsent
  · intro hsurvivor id createdAt htarget hborn hlate hexpired
    cases hrow : timed.store.inner.lookup id with
    | none => exact actsAbsent_of_absent hrow label.2
    | some row =>
      obtain ⟨hborn', hpast, htimely⟩ := h.stored id row hrow
      obtain rfl : createdAt = row.createdAt := Option.some_inj.mp (hborn.symm.trans hborn')
      have hgone {now : Instant} (hnow : label.1 ≤ now) :
          ¬ BaseAccountStore.survives timed.store.expiry now row = true := by
        rw [survives_iff (hpast.trans (hclock.trans hnow))]
        rintro (hlogin | hyoung)
        · exact hlate (htimely.mp hlogin)
        · exact absurd (hexpired.trans hnow) (Nat.not_le.mpr hyoung)
      rcases Call.getSetting_or_changed_of_target htarget with ⟨setting, now, hcall⟩ | hchanged
      · rw [hcall] at horder ⊢
        apply actsAbsent_getSetting
        rw [lookup_pruneExpired, hrow]
        simp [Option.filter_some, hgone horder]
      · exact absurd (hsurvivor id hchanged row hrow) (hgone le_rfl)

end Steps

/-- An account that got no login in time is gone for every later call, in exactly the runs whose
increments, decrements, updates and deletions never find a row that should have been pruned. -/
theorem everyStep_unusable_iff {expiry : Duration} {labels : List (Instant × Call Value)}
    {final : Timed Value} (hrun : run timedStep (.initial expiry) labels = some final) :
    EveryStep timedStep Unusable (.initial expiry) labels ↔
      EveryStep timedStep FindsSurvivor (.initial expiry) labels :=
  everyStep_iff_everyStep_of_run timedStep (fun _ _ _ h hstep ↦ h.unusable_iff hstep)
    (fun _ _ _ h hcondition hstep ↦ h.timedStep hcondition hstep) (dated_initial expiry) hrun

/-- An account with a login stays; one without is pruned by a lookup before it is incremented. -/
theorem everyStep_unusable_pruned :
    EveryStep timedStep Unusable (.initial 5 : Timed Bool)
      [(0, .create ['a'] 0 0), (3, .incrementLoginCount ['a']), (4, .create ['b'] 4 4),
        (10, .getSetting ['a'] ['s'] 10), (11, .incrementLoginCount ['b']),
        (12, .decrementLoginCount ['a'])] := by
  obtain ⟨final, hrun⟩ : ∃ final, run timedStep (.initial 5 : Timed Bool)
      [(0, .create ['a'] 0 0), (3, .incrementLoginCount ['a']), (4, .create ['b'] 4 4),
        (10, .getSetting ['a'] ['s'] 10), (11, .incrementLoginCount ['b']),
        (12, .decrementLoginCount ['a'])] = some final := ⟨_, rfl⟩
  exact (everyStep_unusable_iff hrun).mpr (by decide)

/-- An account gets its first login twice the expiry after its creation. -/
theorem not_everyStep_unusable_unpruned :
    ∃ final, run timedStep (.initial 5 : Timed Bool)
        [(0, .create ['a'] 0 0), (10, .incrementLoginCount ['a'])] = some final ∧
      ¬ EveryStep timedStep Unusable (.initial 5 : Timed Bool)
        [(0, .create ['a'] 0 0), (10, .incrementLoginCount ['a'])] := by
  refine ⟨_, rfl, fun h ↦ ?_⟩
  obtain ⟨hunusable, -⟩ := h.2 _ rfl
  have habsent := (actsAbsent_iff rfl).mp (hunusable ['a'] 0 rfl rfl (by decide) (by decide))
  exact absurd (congrArg Option.isSome habsent) (by decide)

end SolidCommunity.Identity.AccountStore
