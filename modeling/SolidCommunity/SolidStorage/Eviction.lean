import SolidCommunity.SolidStorage.Expiring

/-!
# Eviction and Sequential Calls

A call that runs alone, with the clock standing still, has one effect and one result whatever the
order in which it meets the entries.  Removing an expired entry early then changes nothing that a
get, a lookup or a listing could tell; only a deletion reports whether an expired entry was still
there.
-/

namespace SolidCommunity.SolidStorage.Eviction

open Foundations.FiniteMap Foundations.Runs Foundations.Text Expiring

/-! ## Calls that run alone -/

/-- The result of a call, whose entries come in no particular order. -/
inductive Reply where
  | value (result : Option Str)
  | found (flag : Bool)
  | stored
  | alreadyExpired
  | removed (flag : Bool)
  | listed (live : Multiset (Str × Str))
  | swept
deriving DecidableEq

namespace Reply

def ofOutcome : Expiring.Outcome → Reply
  | .value result => value result
  | .found flag => found flag
  | .stored => stored
  | .alreadyExpired => alreadyExpired
  | .removed flag => removed flag
  | .listed live => listed live
  | .swept => swept

/-- The reply of a get or a has. -/
def ofQuery (query : Query) (result : Option Str) : Reply := ofOutcome (query.outcome result)

end Reply

/-- The envelope has not expired yet. -/
def isLive (now : SystemTime) (wrapper : ExpiresWrapper) : Bool := !wrapper.isExpired now

/-- The source without its expired entries. -/
def unexpired (source : Source) (now : SystemTime) : Source :=
  retain source fun _ wrapper ↦ isLive now wrapper

/-- The effect and the result of a call at one clock time. -/
def execute (source : Source) (now : SystemTime) : Expiring.Call → Source × Reply
  | .query query key =>
    match source.lookup key with
    | none => (source, Reply.ofQuery query none)
    | some wrapper =>
      if wrapper.isExpired now then (source.erase key, Reply.ofQuery query none)
      else (source, Reply.ofQuery query (some wrapper.payload))
  | .set key value => (source.insert key (ExpiresWrapper.new value none), .stored)
  | .setExpiring key value expires =>
    if expires.any (· ≤ now) then (source, .alreadyExpired)
    else (source.insert key (ExpiresWrapper.new value expires), .stored)
  | .delete key => (source.erase key, .removed (key ∈ source))
  | .entries =>
    (source, .listed ((unexpired source now).entries.map fun entry ↦ (entry.1, entry.2.payload)))
  | .sweep => (unexpired source now, .swept)

/-- The live pairs of a part of a snapshot. -/
def livePairs (now : SystemTime) (entries : SourceEntries) : List (Str × Str) :=
  (entries.filter (isLive now ·.2)).map fun entry ↦ (entry.1, entry.2.payload)

/-- The expired keys of a part of a snapshot. -/
def expiredKeys (now : SystemTime) (entries : SourceEntries) : List Str :=
  (entries.filter (·.2.isExpired now)).map (·.1)

/-- What is left of a task with the clock at `now`: its effect and its result when nothing else
runs. -/
def completion (source : Source) (now : SystemTime) : TaskState → Option (Source × Reply)
  | .idle => none
  | .called call => some (execute source now call)
  | .checking query key wrapper =>
    some (if wrapper.isExpired now then (source.erase key, Reply.ofQuery query none)
      else (source, Reply.ofQuery query (some wrapper.payload)))
  | .evicting query key => some (source.erase key, Reply.ofQuery query none)
  | .storing key wrapper => some (source.insert key wrapper, .stored)
  | .listing rest live => some (source, .listed (live ++ livePairs now rest : List (Str × Str)))
  | .sweeping rest expired => some (eraseAll source (expired ++ expiredKeys now rest), .swept)
  | .purging keys => some (eraseAll source keys, .swept)
  | .finished outcome => some (source, Reply.ofOutcome outcome)

section Alone

variable {source next : Source} {now : SystemTime} {task moved : TaskState}

/-- A step of a task leaves to do what was left before, less what the step did. -/
theorem completion_advance (h : advance source now task = some (next, moved)) :
    completion next now moved = completion source now task := by
  cases atomicStep_of_advance h with
  | absent query hlookup =>
    simp only [completion, execute, hlookup]
    rfl
  | found query hlookup => simp only [completion, execute, hlookup]
  | expired query key hexpired => rw [completion, completion, if_pos hexpired]
  | live query key hlive =>
    rw [completion, completion, if_neg (Bool.eq_false_iff.mp hlive)]
    rfl
  | reject key value hpast =>
    rw [completion, completion, execute, if_pos hpast]
    rfl
  | wrap key value hahead =>
    rw [completion, completion, execute, if_neg (Bool.eq_false_iff.mp hahead)]
  | listed live => simp [completion, livePairs, Reply.ofOutcome]
  | list key wrapper rest live =>
    by_cases hexpired : wrapper.isExpired now = true
    · simp [completion, livePairs, isLive, hexpired]
    · simp [completion, livePairs, isLive, hexpired]
  | judged expired => simp [completion, expiredKeys]
  | judge key wrapper rest expired =>
    by_cases hexpired : wrapper.isExpired now = true
    · simp [completion, expiredKeys, hexpired]
    · simp [completion, expiredKeys, hexpired]
  | evict | set | store | delete | purged | purge => rfl

/-- The pairs that `entries` reports, from a snapshot in any order. -/
theorem coe_livePairs {order : SourceEntries} (horder : (order : Multiset _) = source.entries) :
    ((livePairs now order : List (Str × Str)) : Multiset (Str × Str)) =
      (unexpired source now).entries.map fun entry ↦ (entry.1, entry.2.payload) := by
  simp [livePairs, unexpired, retain, ← horder]

/-- Erasing the expired keys of a snapshot leaves the entries that are live. -/
theorem eraseAll_expiredKeys {order : SourceEntries}
    (horder : (order : Multiset _) = source.entries) :
    eraseAll source (expiredKeys now order) = unexpired source now := by
  have hmem (key : Str) : key ∈ expiredKeys now order ↔
      ∃ wrapper, source.lookup key = some wrapper ∧ wrapper.isExpired now = true := by
    rw [expiredKeys, List.mem_map]
    constructor
    · rintro ⟨entry, hentry, rfl⟩
      rw [List.mem_filter, ← Multiset.mem_coe, horder, ← lookup_eq_some_iff_mem_entries] at hentry
      exact ⟨entry.2, hentry⟩
    · rintro ⟨wrapper, hlookup, hexpired⟩
      refine ⟨⟨key, wrapper⟩, ?_, rfl⟩
      rw [List.mem_filter, ← Multiset.mem_coe, horder, ← lookup_eq_some_iff_mem_entries]
      exact ⟨hlookup, hexpired⟩
  apply Finmap.ext_lookup
  intro key
  rw [lookup_eraseAll, unexpired, lookup_retain]
  cases hlookup : source.lookup key with
  | none => simp
  | some wrapper =>
    have hiff : key ∈ expiredKeys now order ↔ wrapper.isExpired now = true := by
      rw [hmem, hlookup]
      simp
    by_cases hexpired : wrapper.isExpired now = true
    · rw [if_pos (hiff.mpr hexpired), Option.filter_some, isLive, hexpired]
      rfl
    · rw [if_neg (mt hiff.mp hexpired), Option.filter_some, isLive,
        Bool.eq_false_of_not_eq_true hexpired]
      rfl

/-- So does the snapshot that a listing or a sweep begins with. -/
theorem completion_snapshot {order : SourceEntries} (h : snapshot source order task = some moved) :
    completion source now moved = completion source now task := by
  obtain ⟨horder, ⟨rfl, rfl⟩ | ⟨rfl, rfl⟩⟩ := snapshot_cases h
  · rw [completion, completion, execute, List.nil_append, coe_livePairs horder]
  · rw [completion, completion, execute, List.nil_append, eraseAll_expiredKeys horder]

variable {Task : Type*} [DecidableEq Task] {state final : State Task} {events : List (Event Task)}
  {caller : Task} {call : Expiring.Call} {outcome : Expiring.Outcome}

/-- An atomic step of the caller with the clock at `now`. -/
def Event.IsStep (caller : Task) (now : SystemTime) (event : Event Task) : Prop :=
  event = .advance caller now ∨ ∃ order, event = .snapshot caller order

/-- A call whose atomic steps run alone at one clock time has the effect and the result of
`execute`. -/
theorem execute_of_run (hcalled : state.tasks caller = .called call)
    (halone : ∀ event ∈ events, Event.IsStep caller now event)
    (hrun : run step state events = some final)
    (hfinished : final.tasks caller = .finished outcome) :
    execute state.source now call = (final.source, Reply.ofOutcome outcome) := by
  have hinvariant : completion final.source now (final.tasks caller) =
      some (execute state.source now call) := by
    apply invariant_of_everyStep step _ (fun state' : State Task ↦
      completion state'.source now (state'.tasks caller) = some (execute state.source now call))
      ?_ (by rw [hcalled]; rfl) ((everyStep_true step state events).and_forall_mem step halone) hrun
    intro state' event next hstate hevent hstep
    rcases hevent.2 with rfl | ⟨order, rfl⟩
    · obtain ⟨⟨source, moved⟩, hadvance, rfl⟩ := Option.map_eq_some_iff.mp hstep
      rw [tasks_setTask, if_pos rfl]
      exact (completion_advance hadvance).trans hstate
    · obtain ⟨moved, hsnapshot, rfl⟩ := Option.map_eq_some_iff.mp hstep
      rw [tasks_setTask, if_pos rfl]
      exact (completion_snapshot hsnapshot).trans hstate
  rw [hfinished] at hinvariant
  exact (Option.some_inj.mp hinvariant).symm

end Alone

/-! ## Sequential runs -/

/-- A call and its clock time. -/
abbrev TimedCall := SystemTime × Expiring.Call

def callStep (source : Source) (timed : TimedCall) : Option Source :=
  some (execute source timed.1 timed.2).1

/-- The results that the clients see; a sweep returns to nobody. -/
def replies : Source → List TimedCall → List Reply
  | _, [] => []
  | source, (now, call) :: rest =>
    if call = .sweep then replies (execute source now call).1 rest
    else (execute source now call).2 :: replies (execute source now call).1 rest

/-- The run without its sweeps. -/
def clientCalls (events : List TimedCall) : List TimedCall := events.filter (·.2 ≠ .sweep)

/-- The clock never goes back. -/
def NonDecreasing (events : List TimedCall) : Prop := events.Pairwise (·.1 ≤ ·.1)

instance (events : List TimedCall) : Decidable (NonDecreasing events) :=
  inferInstanceAs (Decidable (events.Pairwise (·.1 ≤ ·.1)))

/-- The key holds a value that has not expired. -/
def holdsLive (source : Source) (now : SystemTime) (key : Str) : Bool :=
  (source.lookup key).any (isLive now)

/-- What a call reports about the presence of its key. -/
def reportedPresence : Expiring.Call → Reply → Option (Str × Bool)
  | .query .get key, .value result => some (key, result.isSome)
  | .query .has key, .found flag => some (key, flag)
  | .delete key, .removed flag => some (key, flag)
  | _, _ => none

/-- The presence that a call reports is that of a live value. -/
def ReportsLiveness (source : Source) (timed : TimedCall) : Prop :=
  ∀ report ∈ reportedPresence timed.2 (execute source timed.1 timed.2).2,
    report.2 = holdsLive source timed.1 report.1

/-- Sweeps at any points of the run change no result, and every reported presence is that of a live
value. -/
def EvictionUnobservable (source : Source) (calls : List TimedCall) : Prop :=
  ∀ events, NonDecreasing events → clientCalls events = calls →
    replies source events = replies source calls ∧
      EveryStep callStep ReportsLiveness source events

/-- The key that a call deletes. -/
def deletedKey : Expiring.Call → Option Str
  | .delete key => some key
  | _ => none

/-- A deletion does not find an expired entry. -/
def DeletesUnexpired (source : Source) (timed : TimedCall) : Prop :=
  ∀ key ∈ deletedKey timed.2, ∀ wrapper ∈ source.lookup key, wrapper.isExpired timed.1 = false

instance (source : Source) (timed : TimedCall) : Decidable (DeletesUnexpired source timed) :=
  inferInstanceAs (Decidable (∀ key ∈ deletedKey timed.2, ∀ wrapper ∈ source.lookup key,
    wrapper.isExpired timed.1 = false))

/-! ## Sources that differ in evicted entries -/

section Swept

variable {swept source : Source} {start now later : SystemTime} {call : Expiring.Call}

/-- What has expired stays expired. -/
theorem isExpired_of_le {wrapper : ExpiresWrapper} (hle : now ≤ later)
    (h : wrapper.isExpired now = true) : wrapper.isExpired later = true := by
  unfold ExpiresWrapper.isExpired at h ⊢
  cases hexpires : wrapper.expires with
  | none => simp [hexpires] at h
  | some expiry =>
    simp only [hexpires, decide_eq_true_eq] at h ⊢
    exact le_trans h (unixSecs_le hle)

/-- The first source lacks some entries of the second one, all of them expired. -/
def Swept (now : SystemTime) (swept source : Source) : Prop :=
  ∀ key, swept.lookup key = source.lookup key ∨
    (swept.lookup key = none ∧ ∃ wrapper, source.lookup key = some wrapper ∧
      wrapper.isExpired now = true)

theorem swept_refl (now : SystemTime) (source : Source) : Swept now source source :=
  fun _ ↦ .inl rfl

theorem Swept.of_le (h : Swept now swept source) (hle : now ≤ later) : Swept later swept source := by
  intro key
  rcases h key with hsame | ⟨hnone, wrapper, hlookup, hexpired⟩
  · exact .inl hsame
  · exact .inr ⟨hnone, wrapper, hlookup, isExpired_of_le hle hexpired⟩

theorem lookup_unexpired (source : Source) (now : SystemTime) (key : Str) :
    (unexpired source now).lookup key = (source.lookup key).filter (isLive now) :=
  lookup_retain source _ key

/-- Another sweep. -/
theorem Swept.sweep (h : Swept now swept source) : Swept now (unexpired swept now) source := by
  intro key
  rw [lookup_unexpired]
  rcases h key with hsame | ⟨hnone, hexpired⟩
  · rw [hsame]
    cases hlookup : source.lookup key with
    | none => exact .inl rfl
    | some wrapper =>
      rw [Option.filter_some, isLive]
      cases hexpired : wrapper.isExpired now with
      | true => exact .inr ⟨rfl, wrapper, rfl, hexpired⟩
      | false => exact .inl rfl
  · rw [hnone]
    exact .inr ⟨rfl, hexpired⟩

/-- Both sources have the same live entries. -/
theorem Swept.unexpired_eq (h : Swept now swept source) :
    unexpired swept now = unexpired source now := by
  apply Finmap.ext_lookup
  intro key
  rw [lookup_unexpired, lookup_unexpired]
  rcases h key with hsame | ⟨hnone, wrapper, hlookup, hexpired⟩
  · rw [hsame]
  · rw [hnone, hlookup, Option.filter_some, isLive, hexpired]
    rfl

theorem Swept.insert (h : Swept now swept source) (key : Str) (wrapper : ExpiresWrapper) :
    Swept now (swept.insert key wrapper) (source.insert key wrapper) := by
  intro other
  rw [lookup_insert_eq_ite, lookup_insert_eq_ite]
  split
  · exact .inl rfl
  · exact h other

theorem Swept.erase (h : Swept now swept source) (key : Str) :
    Swept now (swept.erase key) (source.erase key) := by
  intro other
  rw [lookup_erase_eq_ite, lookup_erase_eq_ite]
  split
  · exact .inl rfl
  · exact h other

/-- Evicting lazily what was swept before. -/
theorem Swept.erase_right (h : Swept now swept source) {key : Str}
    (hnone : swept.lookup key = none) : Swept now swept (source.erase key) := by
  intro other
  rw [lookup_erase_eq_ite]
  split
  · next heq => exact .inl (heq ▸ hnone)
  · exact h other

/-- A call that deletes nothing expired cannot tell the two sources apart. -/
theorem Swept.execute (h : Swept now swept source) (hcall : call ≠ .sweep)
    (hdeletes : DeletesUnexpired source (now, call)) :
    (Eviction.execute swept now call).2 = (Eviction.execute source now call).2 ∧
      Swept now (Eviction.execute swept now call).1 (Eviction.execute source now call).1 := by
  cases call with
  | query query key =>
    rcases h key with hsame | ⟨hnone, wrapper, hlookup, hexpired⟩
    · cases hlookup : source.lookup key with
      | none =>
        simp only [Eviction.execute, hsame, hlookup, true_and]
        exact h
      | some wrapper =>
        simp only [Eviction.execute, hsame, hlookup]
        split
        · exact ⟨rfl, h.erase key⟩
        · exact ⟨rfl, h⟩
    · simp only [Eviction.execute, hnone, hlookup, hexpired, if_true, true_and]
      exact h.erase_right hnone
  | set key value => exact ⟨rfl, h.insert key _⟩
  | setExpiring key value expires =>
    simp only [Eviction.execute]
    split
    · exact ⟨rfl, h⟩
    · exact ⟨rfl, h.insert key _⟩
  | delete key =>
    have hsame : swept.lookup key = source.lookup key := by
      rcases h key with hsame | ⟨-, wrapper, hlookup, hexpired⟩
      · exact hsame
      · rw [hdeletes key rfl wrapper hlookup] at hexpired
        exact absurd hexpired Bool.false_ne_true
    have hmem : key ∈ swept ↔ key ∈ source := by
      rw [← Finmap.lookup_isSome, ← Finmap.lookup_isSome, hsame]
    refine ⟨?_, h.erase key⟩
    simp only [Eviction.execute, hmem]
  | entries =>
    refine ⟨?_, h⟩
    simp only [Eviction.execute, h.unexpired_eq]
  | sweep => exact absurd rfl hcall

theorem Swept.deletesUnexpired (h : Swept now swept source)
    (hdeletes : DeletesUnexpired source (now, call)) : DeletesUnexpired swept (now, call) := by
  intro key hcall wrapper hlookup
  rcases h key with hsame | ⟨hnone, -⟩
  · exact hdeletes key hcall wrapper (hsame.symm.trans hlookup)
  · rw [Option.mem_def, hnone] at hlookup
    simp at hlookup

/-- Every call but a deletion of an expired entry reports liveness. -/
theorem reportsLiveness_iff (source : Source) (now : SystemTime) (call : Expiring.Call) :
    ReportsLiveness source (now, call) ↔ DeletesUnexpired source (now, call) := by
  unfold ReportsLiveness DeletesUnexpired
  cases call with
  | query query key =>
    have hlive : ∀ report ∈ reportedPresence (.query query key)
        (execute source now (.query query key)).2, report.2 = holdsLive source now report.1 := by
      cases hlookup : source.lookup key with
      | none =>
        simp only [execute, hlookup]
        cases query <;>
          simp [reportedPresence, Reply.ofQuery, Query.outcome, Reply.ofOutcome, holdsLive, hlookup]
      | some wrapper =>
        cases hexpired : wrapper.isExpired now <;> cases query <;>
          simp [execute, reportedPresence, Reply.ofQuery, Query.outcome, Reply.ofOutcome, holdsLive,
            isLive, hlookup, hexpired]
    exact iff_of_true hlive (by simp [deletedKey])
  | delete key =>
    cases hlookup : source.lookup key with
    | none =>
      have habsent : key ∉ source := Finmap.lookup_eq_none.mp hlookup
      simp [execute, reportedPresence, deletedKey, holdsLive, hlookup, habsent]
    | some wrapper =>
      have hstored : key ∈ source := Finmap.mem_of_lookup_eq_some hlookup
      simp [execute, reportedPresence, deletedKey, holdsLive, isLive, hlookup, hstored]
  | set | setExpiring | entries | sweep => simp [reportedPresence, deletedKey]

/-- A run with sweeps and its client calls have the same results, on sources that differ in evicted
entries only. -/
theorem Swept.replies {events : List TimedCall} (h : Swept start swept source)
    (hstart : ∀ event ∈ events, start ≤ event.1) (htimes : NonDecreasing events)
    (hdeletes : EveryStep callStep DeletesUnexpired source (clientCalls events)) :
    Eviction.replies swept events = Eviction.replies source (clientCalls events) ∧
      EveryStep callStep ReportsLiveness swept events := by
  induction events generalizing start swept source with
  | nil => exact ⟨rfl, trivial⟩
  | cons event events ih =>
    obtain ⟨now, call⟩ := event
    obtain ⟨hlater, hrest⟩ := List.pairwise_cons.mp htimes
    have hnow : Swept now swept source := h.of_le (hstart (now, call) List.mem_cons_self)
    by_cases hcall : call = .sweep
    · subst hcall
      have hclient : clientCalls ((now, Expiring.Call.sweep) :: events) = clientCalls events := rfl
      rw [hclient] at hdeletes ⊢
      obtain ⟨hreplies, hreports⟩ := ih hnow.sweep hlater hrest hdeletes
      refine ⟨hreplies, by simp [ReportsLiveness, reportedPresence], fun next hnext ↦ ?_⟩
      obtain rfl := Option.some_inj.mp hnext
      exact hreports
    · have hclient : clientCalls ((now, call) :: events) = (now, call) :: clientCalls events := by
        simp [clientCalls, hcall]
      rw [hclient] at hdeletes ⊢
      obtain ⟨hreply, hafter⟩ := hnow.execute hcall hdeletes.1
      obtain ⟨hreplies, hreports⟩ := ih hafter hlater hrest (hdeletes.2 _ rfl)
      constructor
      · rw [Eviction.replies, Eviction.replies, if_neg hcall, if_neg hcall, hreply, hreplies]
      · refine ⟨(reportsLiveness_iff swept now call).mpr (hnow.deletesUnexpired hdeletes.1),
          fun next hnext ↦ ?_⟩
        obtain rfl := Option.some_inj.mp hnext
        exact hreports

end Swept

/-- Sweeps are unobservable, and presence is reported as liveness, exactly in the runs none of whose
deletions finds an expired entry. -/
theorem evictionUnobservable_iff (source : Source) {calls : List TimedCall}
    (hclient : clientCalls calls = calls) (htimes : NonDecreasing calls) :
    EvictionUnobservable source calls ↔ EveryStep callStep DeletesUnexpired source calls := by
  constructor
  · intro h
    exact (h calls htimes hclient).2.imp callStep fun source timed hreports ↦
      (reportsLiveness_iff source timed.1 timed.2).mp hreports
  · rintro hdeletes events hevents rfl
    cases events with
    | nil => exact ⟨rfl, trivial⟩
    | cons event events =>
      apply (swept_refl event.1 source).replies _ hevents hdeletes
      intro other hother
      rcases List.mem_cons.mp hother with rfl | hother
      · exact le_rfl
      · exact (List.pairwise_cons.mp hevents).1 other hother

/-- A deletion of a value that is still live, with a sweep after its deadline. -/
theorem evictionUnobservable_live_deletion :
    EvictionUnobservable ∅ [(0, .setExpiring ['k'] ['v'] (some 10000000000)),
      (5000000000, .delete ['k']), (20000000000, .query .has ['k'])] :=
  (evictionUnobservable_iff ∅ rfl (by decide)).mpr (by decide)

/-- A deletion after the deadline reports whether the entry was swept before. -/
theorem not_evictionUnobservable :
    ¬ EvictionUnobservable ∅ [(0, .setExpiring ['k'] ['v'] (some 10000000000)),
      (20000000000, .delete ['k'])] := by
  intro h
  have hreplies := (h [(0, .setExpiring ['k'] ['v'] (some 10000000000)), (15000000000, .sweep),
    (20000000000, .delete ['k'])] (by decide) rfl).1
  exact absurd hreplies (by decide)

end SolidCommunity.SolidStorage.Eviction
