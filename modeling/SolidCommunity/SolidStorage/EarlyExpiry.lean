import SolidCommunity.SolidStorage.Eviction

/-!
# Early Expiry

A deadline is compared with the clock at full precision when it is set, and afterwards in whole
seconds, rounded down.  While nobody else writes the key, its value is therefore reported up to the
beginning of the second in which the deadline lies, and not from then on, although the deadline may
still be ahead.
-/

namespace SolidCommunity.SolidStorage.EarlyExpiry

open Foundations.FiniteMap Foundations.Runs Foundations.Text Expiring Eviction

/-! ## Reports of a value -/

/-- The call looks the key up or lists all of them. -/
def consults (key : Str) : Expiring.Call → Bool
  | .query _ other => other == key
  | .entries => true
  | _ => false

/-- A call that consults the key reports the value under it. -/
def ReportsStored (key value : Str) (source : Source) (timed : TimedCall) : Prop :=
  match timed.2 with
  | .query query other =>
    other = key → (execute source timed.1 timed.2).2 = Reply.ofQuery query (some value)
  | .entries =>
    ∃ live, (execute source timed.1 timed.2).2 = .listed live ∧ (key, value) ∈ live
  | _ => True

/-- The value is reported as long as the deadline is ahead. -/
def ReportsUntil (key value : Str) (deadline : SystemTime) (source : Source) (timed : TimedCall) :
    Prop :=
  timed.1 < deadline → ReportsStored key value source timed

/-- The value under a key, unless it has expired. -/
def liveValue (source : Source) (now : SystemTime) (key : Str) : Option Str :=
  ((source.lookup key).filter (isLive now)).map (·.payload)

section Reports

variable {source : Source} {start now deadline : SystemTime} {key value : Str}

/-- A query answers with the live value. -/
theorem execute_query (source : Source) (now : SystemTime) (query : Query) (key : Str) :
    (execute source now (.query query key)).2 = Reply.ofQuery query (liveValue source now key) := by
  cases hlookup : source.lookup key with
  | none => simp [execute, liveValue, hlookup]
  | some wrapper =>
    cases hexpired : wrapper.isExpired now <;>
      simp [execute, liveValue, isLive, hlookup, hexpired, Option.filter_some]

/-- A listing holds the pairs of the live values. -/
theorem mem_listed_iff :
    (key, value) ∈ (unexpired source now).entries.map (fun entry ↦ (entry.1, entry.2.payload)) ↔
      liveValue source now key = some value := by
  rw [liveValue, ← lookup_unexpired, Option.map_eq_some_iff, Multiset.mem_map]
  constructor
  · rintro ⟨⟨other, wrapper⟩, hentry, heq⟩
    obtain ⟨rfl, rfl⟩ := Prod.mk.inj heq
    exact ⟨wrapper, lookup_eq_some_iff_mem_entries.mpr hentry, rfl⟩
  · rintro ⟨wrapper, hlookup, rfl⟩
    exact ⟨⟨key, wrapper⟩, lookup_eq_some_iff_mem_entries.mp hlookup, rfl⟩

/-- When the value is live under a condition only, it is reported under this condition. -/
theorem reportsStored_iff {condition : Prop} [Decidable condition] {call : Expiring.Call}
    (h : liveValue source now key = if condition then some value else none) :
    ReportsStored key value source (now, call) ↔ (consults key call = true → condition) := by
  cases call with
  | query query other =>
    simp only [ReportsStored, consults, beq_iff_eq]
    apply forall_congr'
    rintro rfl
    rw [execute_query, h]
    by_cases hcondition : condition
    · simp [hcondition]
    · cases query <;> simp [hcondition, Reply.ofQuery, Query.outcome, Reply.ofOutcome]
  | entries =>
    have hlisted : ReportsStored key value source (now, .entries) ↔
        liveValue source now key = some value := by
      rw [← mem_listed_iff]
      simp [ReportsStored, execute]
    rw [hlisted, h]
    simp [consults]
  | set | setExpiring | delete | sweep => simp [ReportsStored, consults]

/-! ## The stored envelope -/

/-- The envelope that the call has stored is there, or the second of its deadline has begun and it
has been evicted. -/
def Held (key value : Str) (deadline now : SystemTime) (source : Source) : Prop :=
  source.lookup key = some (ExpiresWrapper.new value (some deadline)) ∨
    (source.lookup key = none ∧ unixSecs deadline ≤ unixSecs now)

/-- Setting the value of a deadline that is ahead succeeds. -/
theorem execute_setExpiring (source : Source) (key value : Str) (h : start < deadline) :
    execute source start (.setExpiring key value (some deadline)) =
      (source.insert key (ExpiresWrapper.new value (some deadline)), .stored) := by
  have hahead : Option.any (fun expiry ↦ decide (expiry ≤ start)) (some deadline) = false :=
    decide_eq_false (not_le.mpr h)
  rw [execute, if_neg (by rw [hahead]; exact Bool.false_ne_true)]

theorem held_setExpiring (source : Source) (key value : Str) (h : start < deadline) :
    Held key value deadline start
      (execute source start (.setExpiring key value (some deadline))).1 := by
  rw [execute_setExpiring source key value h]
  exact .inl (Finmap.lookup_insert source)

theorem Held.of_le (h : Held key value deadline start source) (hle : start ≤ now) :
    Held key value deadline now source :=
  h.imp_right fun hevicted ↦ ⟨hevicted.1, le_trans hevicted.2 (unixSecs_le hle)⟩

/-- The stored value is live before the second of its deadline. -/
theorem Held.liveValue_eq (h : Held key value deadline now source) :
    liveValue source now key = if unixSecs now < unixSecs deadline then some value else none := by
  rcases h with hstored | ⟨hnone, hlate⟩
  · by_cases hearly : unixSecs now < unixSecs deadline
    · simp [liveValue, hstored, isLive, ExpiresWrapper.isExpired, ExpiresWrapper.new, hearly]
    · simp [liveValue, hstored, isLive, ExpiresWrapper.isExpired, ExpiresWrapper.new, hearly,
        not_lt.mp hearly]
  · rw [liveValue, hnone, if_neg (not_lt.mpr hlate)]
    rfl

/-- Removing what has expired keeps the envelope or finds its second begun. -/
theorem Held.of_lookup {next : Source} (h : Held key value deadline now source)
    (hnext : next.lookup key = source.lookup key ∨
      (next.lookup key = none ∧ ∀ wrapper ∈ source.lookup key, wrapper.isExpired now = true)) :
    Held key value deadline now next := by
  rcases hnext with hsame | ⟨hgone, hexpired⟩
  · rwa [Held, hsame]
  · rcases h with hstored | hevicted
    · exact .inr ⟨hgone, of_decide_eq_true (hexpired _ hstored)⟩
    · exact .inr ⟨hgone, hevicted.2⟩

/-- A call that does not write the key keeps its envelope until it has expired. -/
theorem Held.execute {call : Expiring.Call} (h : Held key value deadline now source)
    (hcall : call.writes key = false) :
    Held key value deadline now (Eviction.execute source now call).1 := by
  have hne {other : Str} (hother : (other == key) = false) : key ≠ other :=
    (beq_eq_false_iff_ne.mp hother).symm
  cases call with
  | query query other =>
    cases hlookup : source.lookup other with
    | none =>
      simp only [Eviction.execute, hlookup]
      exact h
    | some wrapper =>
      simp only [Eviction.execute, hlookup]
      split
      · next hexpired =>
        apply h.of_lookup
        rw [lookup_erase_eq_ite]
        split
        · next heq =>
          rw [heq, hlookup]
          exact .inr ⟨rfl, fun _ hwrapper ↦ Option.some_inj.mp hwrapper ▸ hexpired⟩
        · exact .inl rfl
      · exact h
  | set other _ =>
    exact h.of_lookup (.inl (Finmap.lookup_insert_of_ne source (hne hcall)))
  | setExpiring other _ expires =>
    rw [Eviction.execute]
    split
    · exact h
    · exact h.of_lookup (.inl (Finmap.lookup_insert_of_ne source (hne hcall)))
  | delete other =>
    exact h.of_lookup (.inl (Finmap.lookup_erase_ne (hne hcall)))
  | entries => exact h
  | sweep =>
    apply h.of_lookup
    rw [Eviction.execute, lookup_unexpired]
    cases hlookup : source.lookup key with
    | none => exact .inl rfl
    | some wrapper =>
      cases hexpired : wrapper.isExpired now with
      | true => exact .inr ⟨by simp [isLive, hexpired], by simp [hexpired]⟩
      | false => exact .inl (by simp [isLive, hexpired])

/-- From a state with the envelope on, what is reported depends on the seconds of the calls. -/
theorem Held.everyStep_iff {calls : List TimedCall} (h : Held key value deadline start source)
    (hstart : ∀ timed ∈ calls, start ≤ timed.1) (htimes : NonDecreasing calls)
    (hkey : ∀ timed ∈ calls, timed.2.writes key = false) :
    EveryStep callStep (ReportsUntil key value deadline) source calls ↔
      ∀ timed ∈ calls, timed.1 < deadline → consults key timed.2 = true →
        unixSecs timed.1 < unixSecs deadline := by
  induction calls generalizing source start with
  | nil => exact iff_of_true trivial (by simp)
  | cons timed calls ih =>
    obtain ⟨now, call⟩ := timed
    obtain ⟨hlater, hrest⟩ := List.pairwise_cons.mp htimes
    obtain ⟨hcall, hcalls⟩ := List.forall_mem_cons.mp hkey
    have hnow : Held key value deadline now source := h.of_le (hstart _ List.mem_cons_self)
    have hreport : ReportsUntil key value deadline source (now, call) ↔
        (now < deadline → consults key call = true → unixSecs now < unixSecs deadline) :=
      forall_congr' fun _ ↦ reportsStored_iff hnow.liveValue_eq
    have hafter := ih (hnow.execute hcall) hlater hrest hcalls
    rw [List.forall_mem_cons, ← hafter, ← hreport]
    apply and_congr_right
    intro _
    constructor
    · intro hsteps
      exact hsteps _ rfl
    · intro hsteps next hnext
      obtain rfl := Option.some_inj.mp hnext
      exact hsteps

end Reports

/-- While nobody else writes the key, its value is reported up to its deadline exactly in the runs
none of whose lookups and listings falls into the second of the deadline. -/
theorem everyStep_reportsUntil_iff {source : Source} {key value : Str}
    {start deadline : SystemTime} {calls : List TimedCall} (hahead : start < deadline)
    (htimes : NonDecreasing ((start, .setExpiring key value (some deadline)) :: calls))
    (hkey : ∀ timed ∈ calls, timed.2.writes key = false) :
    EveryStep callStep (ReportsUntil key value deadline)
        (execute source start (.setExpiring key value (some deadline))).1 calls ↔
      ∀ timed ∈ calls, timed.1 < deadline → consults key timed.2 = true →
        unixSecs timed.1 < unixSecs deadline := by
  obtain ⟨hstart, hrest⟩ := List.pairwise_cons.mp htimes
  exact (held_setExpiring source key value hahead).everyStep_iff hstart hrest hkey

/-- A lookup and a listing before the second of a deadline of 10.5 seconds. -/
theorem everyStep_reportsUntil_early :
    EveryStep callStep (ReportsUntil ['k'] ['v'] 10500000000)
      (execute ∅ 0 (.setExpiring ['k'] ['v'] (some 10500000000))).1
      [(1200000000, .query .get ['k']), (9900000000, .entries)] :=
  (everyStep_reportsUntil_iff (by decide) (by decide) (by decide)).mpr (by decide)

/-- A value with a deadline in half a second is absent at once. -/
theorem not_everyStep_reportsUntil :
    ¬ EveryStep callStep (ReportsUntil ['k'] ['v'] 10700000000)
      (execute ∅ 10200000000 (.setExpiring ['k'] ['v'] (some 10700000000))).1
      [(10200000000, .query .get ['k'])] := by
  intro h
  have hreport := h.1 (by decide) rfl
  exact absurd hreport (by decide)

end SolidCommunity.SolidStorage.EarlyExpiry
