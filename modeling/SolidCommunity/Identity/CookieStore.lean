import SolidCommunity.Identity.AccountStore

/-!
# Cookies

A cookie is good until its deadline, and a refresh before the deadline moves it.  Expired entries
stay until the next cookie is generated, which prunes them all.  A lookup, a refresh and the pruning
judge a deadline alike, so the pruning never shows: a cookie is good exactly while the lease that
the calls about it have granted runs.
-/

namespace SolidCommunity.Identity.CookieStore

open AccountStore (Instant Duration)
open Foundations.FiniteMap Foundations.Runs Foundations.Text

/-- Nanoseconds since the Unix epoch. -/
abbrev SystemTime := ℤ

structure CookieEntry where
  accountId : Str
  expiresAt : Instant

/-- The entries under their cookies, and how long a new or refreshed one lasts. -/
structure BaseCookieStore where
  inner : HashMap Str CookieEntry
  ttl : Duration

namespace BaseCookieStore

def new (ttl : Duration) : BaseCookieStore := ⟨∅, ttl⟩

def prune (store : BaseCookieStore) (now : Instant) : BaseCookieStore :=
  { store with inner := retain store.inner fun _ entry ↦ now < entry.expiresAt }

/-- Generate a cookie; the clock is read for the pruning and for the entry. -/
def generate (store : BaseCookieStore) (accountId cookie : Str) (now issuedAt : Instant) :
    BaseCookieStore × Str :=
  let pruned := store.prune now
  ({ pruned with inner := pruned.inner.insert cookie ⟨accountId, issuedAt + pruned.ttl⟩ }, cookie)

def get (store : BaseCookieStore) (cookie : Str) (now : Instant) : Option Str :=
  ((store.inner.lookup cookie).filter fun entry ↦ now < entry.expiresAt).map CookieEntry.accountId

/-- Move the deadline of a cookie that has not expired, and return it by the system clock. -/
def refresh (store : BaseCookieStore) (cookie : Str) (now : Instant) (systemNow : SystemTime) :
    BaseCookieStore × Option SystemTime :=
  match store.inner.lookup cookie with
  | some entry =>
    if now < entry.expiresAt then
      ({ store with
          inner := store.inner.insert cookie { entry with expiresAt := now + store.ttl } },
        some (systemNow + store.ttl))
    else (store, none)
  | none => (store, none)

def delete (store : BaseCookieStore) (cookie : Str) : BaseCookieStore × Bool :=
  ({ store with inner := store.inner.erase cookie }, cookie ∈ store.inner)

end BaseCookieStore

/-! ## Runs -/

/-- A call with its readings of the clocks. -/
inductive Call where
  | generate (accountId cookie : Str) (now issuedAt : Instant)
  | get (cookie : Str) (now : Instant)
  | refresh (cookie : Str) (now : Instant) (systemNow : SystemTime)
  | delete (cookie : Str)

/-- The cookie that a call generates or names. -/
def Call.cookie : Call → Str
  | .generate _ cookie _ _ => cookie
  | .get cookie _ => cookie
  | .refresh cookie _ _ => cookie
  | .delete cookie => cookie

/-- The store with the latest reading of the monotonic clock. -/
structure Timed where
  store : BaseCookieStore
  clock : Instant

def Timed.initial (ttl : Duration) : Timed := ⟨BaseCookieStore.new ttl, 0⟩

/-- One call; the monotonic clock never goes back. -/
def step (timed : Timed) : Call → Option Timed
  | .generate accountId cookie now issuedAt =>
    if timed.clock ≤ now ∧ now ≤ issuedAt then
      some ⟨(timed.store.generate accountId cookie now issuedAt).1, issuedAt⟩
    else none
  | .get _ now => if timed.clock ≤ now then some ⟨timed.store, now⟩ else none
  | .refresh cookie now systemNow =>
    if timed.clock ≤ now then some ⟨(timed.store.refresh cookie now systemNow).1, now⟩ else none
  | .delete cookie => some ⟨(timed.store.delete cookie).1, timed.clock⟩

/-! ## Leases -/

/-- A cookie's account, and when the cookie was generated or last effectively refreshed. -/
structure Lease where
  accountId : Str
  renewedAt : Instant
deriving DecidableEq

def Lease.expiresAt (lease : Lease) (ttl : Duration) : Instant := lease.renewedAt + ttl

/-- A refresh is effective before the expiry only. -/
def Lease.renew (lease : Lease) (ttl : Duration) (now : Instant) : Lease :=
  if now < lease.expiresAt ttl then { lease with renewedAt := now } else lease

/-- What a call about the cookie does to its lease. -/
def Call.grant (ttl : Duration) : Call → Option Lease → Option Lease
  | .generate accountId _ _ issuedAt, _ => some ⟨accountId, issuedAt⟩
  | .get _ _, lease => lease
  | .refresh _ now _, lease => lease.map (·.renew ttl now)
  | .delete _, _ => none

/-- The lease that the calls about the cookie have granted. -/
def lease (ttl : Duration) (cookie : Str) (calls : List Call) : Option Lease :=
  (calls.filter (·.cookie = cookie)).foldl (fun lease call ↦ call.grant ttl lease) none

theorem lease_concat (ttl : Duration) (cookie : Str) (calls : List Call) (call : Call) :
    lease ttl cookie (calls ++ [call]) =
      if call.cookie = cookie then call.grant ttl (lease ttl cookie calls)
      else lease ttl cookie calls := by
  unfold lease
  rw [List.filter_append, List.foldl_append]
  split
  · next hcookie => simp [hcookie]
  · next hcookie => simp [hcookie]

/-- An entry keeps the account and the expiry of its lease, and is only missing after the expiry. -/
inductive Honours (ttl : Duration) (clock : Instant) :
    Option CookieEntry → Option Lease → Prop where
  | unknown : Honours ttl clock none none
  | stored (lease : Lease) :
    Honours ttl clock (some ⟨lease.accountId, lease.expiresAt ttl⟩) (some lease)
  | pruned (lease : Lease) (hexpired : lease.expiresAt ttl ≤ clock) :
    Honours ttl clock none (some lease)

section Entries

variable {ttl : Duration} {clock later now : Instant} {entry : Option CookieEntry}
  {granted : Option Lease}

theorem Honours.mono (h : Honours ttl clock entry granted) (hlater : clock ≤ later) :
    Honours ttl later entry granted := by
  cases h with
  | unknown => exact .unknown
  | stored lease => exact .stored lease
  | pruned lease hexpired => exact .pruned lease (hexpired.trans hlater)

/-- Pruning removes what has expired. -/
theorem Honours.prune (h : Honours ttl now entry granted) :
    Honours ttl now (entry.filter fun entry ↦ now < entry.expiresAt) granted := by
  cases h with
  | unknown => exact .unknown
  | pruned lease hexpired => exact .pruned lease hexpired
  | stored lease =>
    by_cases hlive : now < lease.expiresAt ttl
    · simpa [Option.filter_some, hlive] using Honours.stored lease
    · simpa [Option.filter_some, hlive] using Honours.pruned lease (Nat.not_lt.mp hlive)

/-- A cookie is good exactly while its lease runs. -/
theorem Honours.get_eq_some_iff (h : Honours ttl clock entry granted) (hnow : clock ≤ now)
    (accountId : Str) :
    (entry.filter fun entry ↦ now < entry.expiresAt).map CookieEntry.accountId = some accountId ↔
      ∃ lease, granted = some lease ∧ lease.accountId = accountId ∧ now < lease.expiresAt ttl := by
  cases h with
  | unknown => simp
  | stored lease =>
    by_cases hlive : now < lease.expiresAt ttl <;> simp [Option.filter_some, hlive]
  | pruned lease hexpired =>
    have hpast : ¬ now < lease.expiresAt ttl := Nat.not_lt.mpr (hexpired.trans hnow)
    simp [hpast]

/-- An effective refresh moves the deadline of the entry and renews the lease. -/
theorem Honours.refresh (h : Honours ttl now entry granted) :
    Honours ttl now
      (entry.map fun entry ↦
        if now < entry.expiresAt then { entry with expiresAt := now + ttl } else entry)
      (granted.map (·.renew ttl now)) := by
  cases h with
  | unknown => exact .unknown
  | stored lease =>
    by_cases hlive : now < lease.expiresAt ttl
    · have hrenewed : Honours ttl now (some ⟨lease.accountId, now + ttl⟩)
          (some ⟨lease.accountId, now⟩) := .stored ⟨lease.accountId, now⟩
      simpa [Lease.renew, hlive] using hrenewed
    · simpa [Lease.renew, hlive] using Honours.stored lease
  | pruned lease hexpired =>
    have hpast : ¬ now < lease.expiresAt ttl := Nat.not_lt.mpr hexpired
    simpa [Lease.renew, hpast] using Honours.pruned lease hexpired

end Entries

/-! ## Calls -/

section Calls

variable (store : BaseCookieStore)

theorem lookup_generate (accountId cookie : Str) (now issuedAt : Instant) (other : Str) :
    (store.generate accountId cookie now issuedAt).1.inner.lookup other =
      if other = cookie then some ⟨accountId, issuedAt + store.ttl⟩
      else (store.inner.lookup other).filter fun entry ↦ now < entry.expiresAt := by
  simp only [BaseCookieStore.generate, BaseCookieStore.prune, lookup_insert_eq_ite, lookup_retain]

theorem lookup_refresh (cookie : Str) (now : Instant) (systemNow : SystemTime) (other : Str) :
    (store.refresh cookie now systemNow).1.inner.lookup other =
      if other = cookie then (store.inner.lookup other).map fun entry ↦
        if now < entry.expiresAt then { entry with expiresAt := now + store.ttl } else entry
      else store.inner.lookup other := by
  unfold BaseCookieStore.refresh
  by_cases hcookie : other = cookie
  · subst hcookie
    cases hentry : store.inner.lookup other with
    | none => simp [hentry]
    | some entry => by_cases hlive : now < entry.expiresAt <;> simp [hentry, hlive]
  · rw [if_neg hcookie]
    split
    · split
      · rw [lookup_insert_eq_ite, if_neg hcookie]
      · rfl
    · rfl

theorem ttl_refresh (cookie : Str) (now : Instant) (systemNow : SystemTime) :
    (store.refresh cookie now systemNow).1.ttl = store.ttl := by
  unfold BaseCookieStore.refresh
  split
  · split <;> rfl
  · rfl

/-- A refresh succeeds when a lookup does. -/
theorem isSome_refresh (cookie : Str) (now : Instant) (systemNow : SystemTime) :
    (store.refresh cookie now systemNow).2.isSome = (store.get cookie now).isSome := by
  unfold BaseCookieStore.refresh BaseCookieStore.get
  cases store.inner.lookup cookie with
  | none => rfl
  | some entry => by_cases hlive : now < entry.expiresAt <;> simp [Option.filter_some, hlive]

end Calls

/-- Every lease that the calls so far have granted is honoured. -/
structure LeasesHonoured (ttl : Duration) (past : List Call) (timed : Timed) : Prop where
  ttl_eq : timed.store.ttl = ttl
  honours : ∀ cookie,
    Honours ttl timed.clock (timed.store.inner.lookup cookie) (lease ttl cookie past)

section Runs

variable {ttl : Duration} {past calls : List Call} {timed next final : Timed} {call : Call}

theorem leasesHonoured_initial (ttl : Duration) : LeasesHonoured ttl [] (.initial ttl) where
  ttl_eq := rfl
  honours _ := .unknown

theorem LeasesHonoured.step (h : LeasesHonoured ttl past timed)
    (hstep : CookieStore.step timed call = some next) :
    LeasesHonoured ttl (past ++ [call]) next := by
  cases call with
  | generate accountId cookie now issuedAt =>
    obtain ⟨⟨hnow, hissued⟩, hnext⟩ := Option.ite_none_right_eq_some.mp hstep
    obtain rfl := Option.some_inj.mp hnext
    refine ⟨h.ttl_eq, fun other ↦ ?_⟩
    rw [lookup_generate, lease_concat, Call.cookie, h.ttl_eq]
    by_cases hcookie : cookie = other
    · rw [if_pos hcookie.symm, if_pos hcookie]
      exact .stored ⟨accountId, issuedAt⟩
    · rw [if_neg (Ne.symm hcookie), if_neg hcookie]
      exact ((h.honours other).mono hnow).prune.mono hissued
  | get cookie now =>
    obtain ⟨hnow, hnext⟩ := Option.ite_none_right_eq_some.mp hstep
    obtain rfl := Option.some_inj.mp hnext
    refine ⟨h.ttl_eq, fun other ↦ ?_⟩
    rw [lease_concat, Call.grant, ite_self]
    exact (h.honours other).mono hnow
  | refresh cookie now systemNow =>
    obtain ⟨hnow, hnext⟩ := Option.ite_none_right_eq_some.mp hstep
    obtain rfl := Option.some_inj.mp hnext
    refine ⟨(ttl_refresh timed.store cookie now systemNow).trans h.ttl_eq, fun other ↦ ?_⟩
    have hhonours := (h.honours other).mono hnow
    rw [lookup_refresh, lease_concat, Call.cookie, h.ttl_eq]
    by_cases hcookie : cookie = other
    · rw [if_pos hcookie.symm, if_pos hcookie]
      exact hhonours.refresh
    · rw [if_neg (Ne.symm hcookie), if_neg hcookie]
      exact hhonours
  | delete cookie =>
    obtain rfl := Option.some_inj.mp hstep
    refine ⟨h.ttl_eq, fun other ↦ ?_⟩
    rw [BaseCookieStore.delete, lookup_erase_eq_ite, lease_concat, Call.cookie]
    by_cases hcookie : cookie = other
    · rw [if_pos hcookie.symm, if_pos hcookie]
      exact .unknown
    · rw [if_neg (Ne.symm hcookie), if_neg hcookie]
      exact h.honours other

theorem leasesHonoured_of_run (hrun : run step (.initial ttl) calls = some final) :
    LeasesHonoured ttl calls final :=
  invariant_of_history step (LeasesHonoured ttl) (fun _ _ _ _ h hstep ↦ h.step hstep)
    (leasesHonoured_initial ttl) hrun

/-- After every run, a lookup and a refresh find a cookie exactly while the lease runs that the
calls about this cookie have granted. -/
theorem get_eq_some_iff_of_run (hrun : run step (.initial ttl) calls = some final) {now : Instant}
    (hnow : final.clock ≤ now) (cookie : Str) :
    (∀ accountId, final.store.get cookie now = some accountId ↔
      ∃ granted, lease ttl cookie calls = some granted ∧ granted.accountId = accountId ∧
        now < granted.expiresAt ttl) ∧
      ∀ systemNow, (final.store.refresh cookie now systemNow).2.isSome = true ↔
        ∃ granted, lease ttl cookie calls = some granted ∧ now < granted.expiresAt ttl := by
  have hget (accountId : Str) : final.store.get cookie now = some accountId ↔
      ∃ granted, lease ttl cookie calls = some granted ∧ granted.accountId = accountId ∧
        now < granted.expiresAt ttl :=
    ((leasesHonoured_of_run hrun).honours cookie).get_eq_some_iff hnow accountId
  refine ⟨hget, fun systemNow ↦ ?_⟩
  rw [isSome_refresh, Option.isSome_iff_exists]
  simp only [hget]
  constructor
  · rintro ⟨accountId, granted, hgranted, -, hlive⟩
    exact ⟨granted, hgranted, hlive⟩
  · rintro ⟨granted, hgranted, hlive⟩
    exact ⟨granted.accountId, granted, hgranted, rfl, hlive⟩

/-- A cookie is refreshed before its deadline, another cookie's generation prunes a third one, and a
refresh at the deadline has no effect. -/
theorem get_eq_some_iff_of_run_refreshed :
    ∃ final, run step (.initial 10)
        [.generate ['a'] ['c'] 0 1, .generate ['b'] ['d'] 1 1, .refresh ['c'] 10 50,
          .generate ['b'] ['e'] 12 12, .refresh ['d'] 12 52] = some final ∧
      final.store.get ['c'] 19 = some ['a'] ∧ final.store.get ['c'] 20 = none ∧
      final.store.get ['d'] 12 = none := by
  obtain ⟨final, hrun⟩ : ∃ final, run step (.initial 10)
      [.generate ['a'] ['c'] 0 1, .generate ['b'] ['d'] 1 1, .refresh ['c'] 10 50,
        .generate ['b'] ['e'] 12 12, .refresh ['d'] 12 52] = some final := ⟨_, rfl⟩
  have hclock : final.clock = 12 := by
    obtain rfl := Option.some_inj.mp hrun
    rfl
  have hnone (cookie : Str) (now : Instant) (granted : Lease) (hnow : 12 ≤ now)
      (hgranted : lease 10 cookie
        [.generate ['a'] ['c'] 0 1, .generate ['b'] ['d'] 1 1, .refresh ['c'] 10 50,
          .generate ['b'] ['e'] 12 12, .refresh ['d'] 12 52] = some granted)
      (hpast : ¬ now < granted.expiresAt 10) : final.store.get cookie now = none := by
    apply Option.eq_none_iff_forall_ne_some.mpr
    intro accountId haccount
    obtain ⟨other, hother, -, hlive⟩ :=
      ((get_eq_some_iff_of_run hrun (hclock ▸ hnow) cookie).1 accountId).mp haccount
    obtain rfl : granted = other := Option.some_inj.mp (hgranted.symm.trans hother)
    exact hpast hlive
  refine ⟨final, hrun, ?_, ?_, ?_⟩
  · exact ((get_eq_some_iff_of_run hrun (by rw [hclock]; decide) ['c']).1 ['a']).mpr
      ⟨⟨['a'], 10⟩, by decide, by decide, by decide⟩
  · exact hnone ['c'] 20 ⟨['a'], 10⟩ (by decide) (by decide) (by decide)
  · exact hnone ['d'] 12 ⟨['b'], 1⟩ (by decide) (by decide) (by decide)

end Runs

end SolidCommunity.Identity.CookieStore
