import SolidCommunity.Foundations.Leases
import SolidCommunity.SolidStorage.EarlyExpiry

/-!
# Time to Live

What the storage is for: each write grants its value until the second of its deadline begins, or
until the next write or deletion of the key.  The storage removes expired envelopes when it looks
them up and when it sweeps, at moments that the clients do not choose, and answers all the same what
the writes so far have granted.
-/

namespace SolidCommunity.SolidStorage.TimeToLive

open Foundations.FiniteMap Foundations.Leases Foundations.Runs Foundations.Text Expiring Eviction

/-! ## Grants -/

/-- The key that a call writes or deletes. -/
def written (timed : TimedCall) : Option Str :=
  match timed.2 with
  | .set key _ => some key
  | .setExpiring key _ _ => some key
  | .delete key => some key
  | _ => none

/-- What a call leaves granted under the key that it writes. -/
def record (timed : TimedCall) (granted : Option ExpiresWrapper) : Option ExpiresWrapper :=
  match timed.2 with
  | .set _ value => some (ExpiresWrapper.new value none)
  | .setExpiring _ value expires =>
    if expires.any (· ≤ timed.1) then granted else some (ExpiresWrapper.new value expires)
  | .delete _ => none
  | _ => granted

/-- What the calls so far have granted under the key. -/
def granted (key : Str) (past : List TimedCall) : Option ExpiresWrapper :=
  ledger written record key past

/-- The granted value, while it lives. -/
def grantedValue (key : Str) (past : List TimedCall) (now : SystemTime) : Option Str :=
  ((granted key past).filter (isLive now)).map (·.payload)

/-- The envelope has expired. -/
def Expired (now : SystemTime) (wrapper : ExpiresWrapper) : Prop := wrapper.isExpired now = true

/-- What a call answers after the calls so far.  Whether a deletion found something is open when
what was granted has expired. -/
def Answers (past : List TimedCall) (now : SystemTime) : Expiring.Call → Reply → Prop
  | .query query key, reply => reply = Reply.ofQuery query (grantedValue key past now)
  | .set _ _, reply => reply = .stored
  | .setExpiring _ _ expires, reply =>
    reply = if expires.any (· ≤ now) then .alreadyExpired else .stored
  | .delete key, reply =>
    (reply = .removed true ∧ (granted key past).isSome = true) ∨
      (reply = .removed false ∧ ∀ wrapper ∈ granted key past, Expired now wrapper)
  | .entries, reply =>
    ∃ listed, reply = .listed listed ∧ (listed.map Prod.fst).Nodup ∧
      ∀ key value, (key, value) ∈ listed ↔ grantedValue key past now = some value
  | .sweep, reply => reply = .swept

/-! ## Single calls -/

section Calls

variable {source : Source} {past : List TimedCall} {now later : SystemTime} {call : Expiring.Call}

/-- Every key holds the envelope that is granted, or nothing when that one has expired. -/
def AllKept (now : SystemTime) (source : Source) (past : List TimedCall) : Prop :=
  ∀ key, Kept (Expired now) (source.lookup key) (granted key past)

theorem expired_of_not_isLive (wrapper : ExpiresWrapper) (h : isLive now wrapper = false) :
    Expired now wrapper := by
  simpa [isLive, Expired] using h

theorem not_isLive_of_expired (wrapper : ExpiresWrapper) (h : Expired now wrapper) :
    isLive now wrapper = false := by
  rw [isLive, h, Bool.not_true]

theorem granted_concat (key : Str) (past : List TimedCall) (timed : TimedCall) :
    granted key (past ++ [timed]) =
      if written timed = some key then record timed (granted key past) else granted key past :=
  ledger_concat written record key past timed

theorem AllKept.mono (h : AllKept now source past) (hlater : now ≤ later) :
    AllKept later source past :=
  fun key ↦ (h key).imp fun _ ↦ isExpired_of_le hlater

/-- The live values are those that are granted. -/
theorem AllKept.liveValue_eq (h : AllKept now source past) (key : Str) :
    EarlyExpiry.liveValue source now key = grantedValue key past now := by
  rw [EarlyExpiry.liveValue, (h key).filter_eq not_isLive_of_expired, grantedValue]

/-- A lookup evicts what it finds expired. -/
theorem lookup_execute_query (source : Source) (now : SystemTime) (query : Query)
    (key other : Str) :
    (execute source now (.query query key)).1.lookup other =
      if other = key then (source.lookup other).filter (isLive now) else source.lookup other := by
  by_cases hkey : other = key
  · subst hkey
    rw [if_pos rfl]
    cases hlookup : source.lookup other with
    | none => simp [execute, hlookup]
    | some wrapper =>
      cases hexpired : wrapper.isExpired now with
      | true => simp [execute, hlookup, hexpired, isLive, Option.filter_some]
      | false => simp [execute, hlookup, hexpired, isLive, Option.filter_some]
  · rw [if_neg hkey]
    cases hlookup : source.lookup key with
    | none => simp [execute, hlookup]
    | some wrapper =>
      cases hexpired : wrapper.isExpired now with
      | true => simp [execute, hlookup, hexpired, Finmap.lookup_erase_ne hkey]
      | false => simp [execute, hlookup, hexpired]

/-- A write under a key. -/
theorem AllKept.write (h : AllKept now source past) {timed : TimedCall} {key : Str}
    (hwritten : written timed = some key) {next : Source}
    (hkey : next.lookup key = record timed (granted key past))
    (hother : ∀ other, other ≠ key → next.lookup other = source.lookup other) :
    AllKept now next (past ++ [timed]) := by
  intro other
  rw [granted_concat, hwritten]
  by_cases hsame : key = other
  · subst hsame
    rw [if_pos rfl, hkey]
    exact kept_self _ _
  · rw [if_neg (mt Option.some_inj.mp hsame), hother other (Ne.symm hsame)]
    exact h other

/-- A call that writes nothing. -/
theorem granted_concat_of_not_written {timed : TimedCall} (hwritten : written timed = none)
    (key : Str) : granted key (past ++ [timed]) = granted key past := by
  rw [granted_concat, hwritten, if_neg (by simp)]

/-- One call keeps what is granted. -/
theorem AllKept.execute (h : AllKept now source past) (call : Expiring.Call) :
    AllKept now (Eviction.execute source now call).1 (past ++ [(now, call)]) := by
  cases call with
  | query query key =>
    intro other
    rw [granted_concat_of_not_written rfl, lookup_execute_query]
    split
    · exact (h other).filter expired_of_not_isLive
    · exact h other
  | set key value =>
    exact h.write rfl (Finmap.lookup_insert source) fun _ hne ↦
      Finmap.lookup_insert_of_ne source hne
  | setExpiring key value expires =>
    by_cases hpast : expires.any (· ≤ now) = true
    · intro other
      have hgranted : granted other (past ++ [(now, .setExpiring key value expires)]) =
          granted other past := by
        have hrecord : record (now, .setExpiring key value expires) (granted other past) =
            granted other past := if_pos hpast
        rw [granted_concat, hrecord, ite_self]
      rw [hgranted, Eviction.execute, if_pos hpast]
      exact h other
    · have hrecord (value' : Option ExpiresWrapper) :
          record (now, .setExpiring key value expires) value' =
            some (ExpiresWrapper.new value expires) := if_neg hpast
      rw [Eviction.execute, if_neg hpast]
      exact h.write rfl ((Finmap.lookup_insert source).trans (hrecord _).symm) fun _ hne ↦
        Finmap.lookup_insert_of_ne source hne
  | delete key =>
    exact h.write rfl (Finmap.lookup_erase key source) fun _ hne ↦ Finmap.lookup_erase_ne hne
  | entries =>
    intro other
    rw [granted_concat_of_not_written rfl]
    exact h other
  | sweep =>
    intro other
    rw [granted_concat_of_not_written rfl, Eviction.execute, lookup_unexpired]
    exact (h other).filter expired_of_not_isLive

/-- No key is listed twice. -/
theorem nodup_listed (source : Source) :
    ((source.entries.map fun entry ↦ (entry.1, entry.2.payload)).map Prod.fst).Nodup := by
  have hkeys : (source.entries.map fun entry ↦ (entry.1, entry.2.payload)).map Prod.fst =
      source.entries.map Sigma.fst := by
    rw [Multiset.map_map]
    rfl
  rw [hkeys]
  exact source.nodupKeys.nodup_keys

/-- One call answers what is granted. -/
theorem AllKept.answers (h : AllKept now source past) (call : Expiring.Call) :
    Answers past now call (Eviction.execute source now call).2 := by
  cases call with
  | query query key =>
    rw [Answers, EarlyExpiry.execute_query, h.liveValue_eq]
  | set | sweep => rfl
  | setExpiring key value expires =>
    rw [Answers, Eviction.execute]
    split <;> rfl
  | delete key =>
    by_cases hmem : key ∈ source
    · obtain ⟨wrapper, hwrapper⟩ := Finmap.mem_iff.mp hmem
      refine .inl ⟨congrArg Reply.removed (decide_eq_true hmem), ?_⟩
      rw [(h key).eq_some hwrapper, Option.isSome_some]
    · refine .inr ⟨congrArg Reply.removed (decide_eq_false hmem), ?_⟩
      exact (h key).dead_of_eq_none (Finmap.lookup_eq_none.mpr hmem)
  | entries =>
    refine ⟨_, rfl, nodup_listed (unexpired source now), fun key value ↦ ?_⟩
    rw [EarlyExpiry.mem_listed_iff, h.liveValue_eq]

end Calls

/-! ## Runs -/

section Runs

variable {source : Source} {past : List TimedCall} {now : SystemTime}

/-- What is granted is kept by every run, at the time of its last call and later. -/
theorem allKept_of_run (htimes : NonDecreasing past) (hrun : run callStep ∅ past = some source)
    (hnow : ∀ timed ∈ past, timed.1 ≤ now) : AllKept now source past := by
  induction past using List.reverseRecOn generalizing source now with
  | nil =>
    obtain rfl : ∅ = source := by simpa using hrun
    exact fun key ↦ kept_self _ none
  | append_singleton past timed ih =>
    obtain ⟨middle, hpast, hlast⟩ := (run_append_eq_some callStep).mp hrun
    obtain ⟨hordered, -, hbefore⟩ := List.pairwise_append.mp htimes
    have hkept : AllKept timed.1 middle past :=
      ih hordered hpast fun earlier hearlier ↦ hbefore earlier hearlier timed (by simp)
    have hsource : (execute middle timed.1 timed.2).1 = source := by
      simpa [run, callStep] using hlast
    rw [← hsource]
    exact (hkept.execute timed.2).mono (hnow timed (by simp))

/-- Every call of every run answers what the writes before it have granted, whatever was evicted or
swept in between, and a sweep leaves what is granted and alive, and nothing else. -/
theorem answers_of_run {call : Expiring.Call} (htimes : NonDecreasing (past ++ [(now, call)]))
    (hrun : run callStep ∅ past = some source) :
    Answers past now call (execute source now call).2 ∧
      ∀ key, (execute source now .sweep).1.lookup key = (granted key past).filter (isLive now) := by
  obtain ⟨hordered, -, hbefore⟩ := List.pairwise_append.mp htimes
  have hkept : AllKept now source past :=
    allKept_of_run hordered hrun fun timed htimed ↦ hbefore timed htimed (now, call) (by simp)
  refine ⟨hkept.answers call, fun key ↦ ?_⟩
  rw [execute, lookup_unexpired, (hkept key).filter_eq not_isLive_of_expired]

/-- A value with a deadline is replaced by one without; after the deadline of another one a sweep
runs, and the listing shows what is left. -/
theorem answers_of_run_listed :
    ∃ source, run callStep ∅
        [(0, .setExpiring ['k'] ['v'] (some 10000000000)),
          (0, .setExpiring ['l'] ['v'] (some 20000000000)), (5000000000, .set ['k'] ['w']),
          (25000000000, .sweep)] = some source ∧
      Answers
        [(0, .setExpiring ['k'] ['v'] (some 10000000000)),
          (0, .setExpiring ['l'] ['v'] (some 20000000000)), (5000000000, .set ['k'] ['w']),
          (25000000000, .sweep)]
        26000000000 .entries (execute source 26000000000 .entries).2 := by
  obtain ⟨source, hrun⟩ : ∃ source, run callStep ∅
      [(0, .setExpiring ['k'] ['v'] (some 10000000000)),
        (0, .setExpiring ['l'] ['v'] (some 20000000000)), (5000000000, .set ['k'] ['w']),
        (25000000000, .sweep)] = some source := ⟨_, rfl⟩
  exact ⟨source, hrun, (answers_of_run (by decide) hrun).1⟩

end Runs

end SolidCommunity.SolidStorage.TimeToLive
