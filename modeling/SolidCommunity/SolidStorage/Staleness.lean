import SolidCommunity.SolidStorage.Expiring

/-!
# Stale Values

An envelope keeps its deadline in whole seconds, and a read judges it by a clock in whole seconds.
A run is followed here together with the exact deadline of every write, from the write to the
envelope in the source and from there to the calls that read it.  Rounding only ever lets a value
expire early, so a call that begins at or after a value's deadline does not report the value.
-/

namespace SolidCommunity.SolidStorage.Staleness

open Foundations.FiniteMap Foundations.Runs Foundations.Text Expiring

/-- The exact deadline of the write of each key, if the write carried one. -/
abbrev Deadlines := Str → Option SystemTime

/-- The stored deadlines after an atomic step of a task: a write stores the deadline it carries. -/
def storedBy (stored carried : Deadlines) : TaskState → Deadlines
  | .called (.set key _) => Function.update stored key none
  | .storing key _ => Function.update stored key (carried key)
  | _ => stored

/-- The deadlines that a task carries after its step: the one it was called with, or the one behind
the envelope that it has read. -/
def carriedBy (stored carried : Deadlines) : TaskState → Deadlines
  | .called (.query _ key) => Function.update carried key (stored key)
  | .called (.setExpiring key _ expires) => Function.update carried key expires
  | _ => carried

/-- A configuration at a clock time, with the deadlines behind its stored envelopes and behind the
envelopes that each task is about to store or has read. -/
structure Tracked (Task : Type*) where
  state : State Task
  clock : SystemTime
  stored : Deadlines
  carried : Task → Deadlines

namespace Tracked

variable {Task : Type*}

def initial (Task : Type*) (clock : SystemTime) : Tracked Task where
  state := State.initial Task
  clock := clock
  stored _ := none
  carried _ _ := none

variable [DecidableEq Task]

def storedAfter (tracked : Tracked Task) : Event Task → Deadlines
  | .advance task _ => storedBy tracked.stored (tracked.carried task) (tracked.state.tasks task)
  | _ => tracked.stored

def carriedAfter (tracked : Tracked Task) : Event Task → Task → Deadlines
  | .advance task _ => Function.update tracked.carried task
    (carriedBy tracked.stored (tracked.carried task) (tracked.state.tasks task))
  | .snapshot task _ => Function.update tracked.carried task tracked.stored
  | _ => tracked.carried

end Tracked

variable {Task : Type*} [DecidableEq Task]

theorem carriedAfter_advance (tracked : Tracked Task) (task other : Task) (now : SystemTime) :
    tracked.carriedAfter (.advance task now) other =
      if other = task then
        carriedBy tracked.stored (tracked.carried task) (tracked.state.tasks task)
      else tracked.carried other :=
  Function.update_apply ..

theorem carriedAfter_snapshot (tracked : Tracked Task) (task other : Task) (order : SourceEntries) :
    tracked.carriedAfter (.snapshot task order) other =
      if other = task then tracked.stored else tracked.carried other :=
  Function.update_apply ..

/-- The clock reading of an event, if it makes one. -/
def clockReading : Event Task → Option SystemTime
  | .advance _ now => some now
  | _ => none

/-- One event at a time to which the clock has not gone back; a clock reading is of that time. -/
def step (tracked : Tracked Task) (timed : SystemTime × Event Task) : Option (Tracked Task) :=
  if tracked.clock ≤ timed.1 ∧ ∀ now ∈ clockReading timed.2, now = timed.1 then
    (Expiring.step tracked.state timed.2).map fun next ↦
      ⟨next, timed.1, tracked.storedAfter timed.2, tracked.carriedAfter timed.2⟩
  else none

/-! ## Envelopes and their deadlines -/

section Tasks

variable {stored carried : Deadlines} {source next : Source} {task moved : TaskState}
  {begun now : SystemTime}

/-- The envelope expires in the second of its deadline. -/
def Truthful (deadline : Option SystemTime) (wrapper : ExpiresWrapper) : Prop :=
  wrapper.expires = deadline.map unixSecs

/-- Every stored envelope expires in the second of its deadline. -/
def SourceTruthful (stored : Deadlines) (source : Source) : Prop :=
  ∀ key wrapper, source.lookup key = some wrapper → Truthful (stored key) wrapper

/-- So does every envelope that a task has in hand. -/
def TaskTruthful (carried : Deadlines) : TaskState → Prop
  | .checking _ key wrapper => Truthful (carried key) wrapper
  | .storing key wrapper => Truthful (carried key) wrapper
  | .listing rest _ => ∀ entry ∈ rest, Truthful (carried entry.1) entry.2
  | _ => True

theorem SourceTruthful.insert (h : SourceTruthful stored source) {key : Str}
    {deadline : Option SystemTime} {wrapper : ExpiresWrapper} (hwrapper : Truthful deadline wrapper) :
    SourceTruthful (Function.update stored key deadline) (source.insert key wrapper) := by
  intro other found hfound
  rw [Function.update_apply]
  rcases lookup_insert_cases hfound with ⟨hother, rfl⟩ | ⟨hother, hfound⟩
  · rw [if_pos hother]
    exact hwrapper
  · rw [if_neg hother]
    exact h other found hfound

theorem SourceTruthful.erase (h : SourceTruthful stored source) (key : Str) :
    SourceTruthful stored (source.erase key) :=
  fun other found hfound ↦ h other found (lookup_of_erase hfound).2

/-- An atomic step keeps the envelopes and their deadlines together. -/
theorem SourceTruthful.advance (h : SourceTruthful stored source) (htask : TaskTruthful carried task)
    (hadvance : Expiring.advance source now task = some (next, moved)) :
    SourceTruthful (storedBy stored carried task) next ∧
      TaskTruthful (carriedBy stored carried task) moved := by
  cases atomicStep_of_advance hadvance with
  | found query hlookup =>
    refine ⟨h, ?_⟩
    rw [TaskTruthful, carriedBy, Function.update_self]
    exact h _ _ hlookup
  | wrap key value =>
    refine ⟨h, ?_⟩
    rw [TaskTruthful, carriedBy, Function.update_self]
    rfl
  | set key value => exact ⟨h.insert rfl, trivial⟩
  | store key wrapper => exact ⟨h.insert htask, trivial⟩
  | delete key => exact ⟨h.erase key, trivial⟩
  | evict query key => exact ⟨h.erase key, trivial⟩
  | purge key keys => exact ⟨h.erase key, trivial⟩
  | list key wrapper rest live =>
    exact ⟨h, fun other hother ↦ htask other (List.mem_cons_of_mem _ hother)⟩
  | absent | expired | live | reject | listed | judged | judge | purged => exact ⟨h, trivial⟩

theorem SourceTruthful.snapshot {order : SourceEntries} (h : SourceTruthful stored source)
    (hsnapshot : Expiring.snapshot source order task = some moved) : TaskTruthful stored moved := by
  obtain ⟨horder, ⟨-, rfl⟩ | ⟨-, rfl⟩⟩ := snapshot_cases hsnapshot
  · intro entry hentry
    apply h entry.1 entry.2
    rw [lookup_eq_some_iff_mem_entries, ← horder]
    exact hentry
  · trivial

/-! ## What a read reports -/

/-- The deadline, if there is one, lies after the moment. -/
def Fresh (begun : SystemTime) (deadline : Option SystemTime) : Prop := ∀ t ∈ deadline, begun < t

/-- An envelope that is still live is of a write whose deadline lies ahead. -/
theorem fresh_of_not_isExpired {deadline : Option SystemTime} {wrapper : ExpiresWrapper}
    (htruthful : Truthful deadline wrapper) (hle : begun ≤ now)
    (hlive : ¬ wrapper.isExpired now = true) : Fresh begun deadline := by
  intro t ht
  obtain rfl : deadline = some t := ht
  have hsecs : ¬ unixSecs t ≤ unixSecs now := by
    simpa [ExpiresWrapper.isExpired, show wrapper.expires = some (unixSecs t) from htruthful]
      using hlive
  have hnow : now < t := by
    by_contra hle
    exact hsecs (unixSecs_le (not_lt.mp hle))
  exact lt_of_le_of_lt hle hnow

/-- The call reports a value for the key. -/
def Reports (key : Str) : Expiring.Call → Expiring.Outcome → Prop
  | .query .get other, .value result => other = key ∧ result.isSome = true
  | .query .has other, .found flag => other = key ∧ flag = true
  | .entries, .listed live => ∃ value, (key, value) ∈ live
  | _, _ => False

/-- What a call that began at the given moment has found so far is fresh. -/
def Honest (begun : SystemTime) (call : Expiring.Call) (carried : Deadlines) : TaskState → Prop
  | .idle => False
  | .called other => other = call
  | .checking query key _ => call = .query query key
  | .evicting query key => call = .query query key
  | .listing _ live => ∀ pair ∈ live, Fresh begun (carried pair.1)
  | .finished outcome => ∀ key, Reports key call outcome → Fresh begun (carried key)
  | _ => True

theorem not_reports_none (key : Str) (call : Expiring.Call) (query : Query) :
    ¬ Reports key call (query.outcome none) := by
  cases query <;> cases call with
  | query other _ => cases other <;> simp [Reports, Query.outcome]
  | _ => simp [Reports, Query.outcome]

/-- A read judges every envelope after it began. -/
theorem Honest.advance {call : Expiring.Call} (h : Honest begun call carried task) (hle : begun ≤ now)
    (htask : TaskTruthful carried task)
    (hadvance : Expiring.advance source now task = some (next, moved)) :
    Honest begun call (carriedBy stored carried task) moved := by
  cases atomicStep_of_advance hadvance with
  | absent query hlookup => exact fun key hreports ↦ absurd hreports (not_reports_none key call query)
  | evict query key =>
    exact fun key' hreports ↦ absurd hreports (not_reports_none key' call query)
  | found query hlookup => exact h.symm
  | expired query key hexpired => exact h
  | live query key hlive =>
    obtain rfl : call = .query query key := h
    have hfresh : Fresh begun (carried key) :=
      fresh_of_not_isExpired htask hle (Bool.eq_false_iff.mp hlive)
    intro key' hreports
    have hkey : key = key' := by cases query <;> exact hreports.1
    exact hkey ▸ hfresh
  | listed live =>
    intro key hreports
    cases call with
    | entries =>
      obtain ⟨value, hvalue⟩ := hreports
      exact h (key, value) hvalue
    | _ => simp [Reports] at hreports
  | list key wrapper rest live =>
    intro pair hpair
    split at hpair
    · exact h pair hpair
    · next hexpired =>
      rcases List.mem_append.mp hpair with hpair | hpair
      · exact h pair hpair
      · rw [List.mem_singleton.mp hpair]
        exact fresh_of_not_isExpired (htask _ List.mem_cons_self) hle hexpired
  | set | reject | store | delete | purged =>
    intro key' hreports
    cases call <;> simp [Reports] at hreports
  | wrap | judged | judge | purge => trivial

theorem Honest.snapshot {order : SourceEntries} {call : Expiring.Call}
    (hsnapshot : Expiring.snapshot source order task = some moved) :
    Honest begun call stored moved := by
  obtain ⟨-, ⟨-, rfl⟩ | ⟨-, rfl⟩⟩ := snapshot_cases hsnapshot
  · intro pair hpair
    simp at hpair
  · trivial

end Tasks

/-! ## Runs -/

section Runs

variable {tracked next final : Tracked Task} {timed : SystemTime × Event Task}
  {begun : SystemTime} {reader : Task} {call : Expiring.Call}

/-- Every envelope, stored or in hand, expires in the second of its deadline. -/
structure AllTruthful (tracked : Tracked Task) : Prop where
  source : SourceTruthful tracked.stored tracked.state.source
  tasks : ∀ task, TaskTruthful (tracked.carried task) (tracked.state.tasks task)

omit [DecidableEq Task] in
theorem allTruthful_initial (clock : SystemTime) : AllTruthful (Tracked.initial Task clock) where
  source key wrapper h := by simp [Tracked.initial, State.initial] at h
  tasks _ := trivial

/-- A timed step is a step of the storage at a time to which the clock has not gone back. -/
theorem step_inv (h : step tracked timed = some next) :
    tracked.clock ≤ timed.1 ∧ (∀ now ∈ clockReading timed.2, now = timed.1) ∧
      ∃ state, Expiring.step tracked.state timed.2 = some state ∧
        next = ⟨state, timed.1, tracked.storedAfter timed.2, tracked.carriedAfter timed.2⟩ := by
  obtain ⟨⟨hclock, hreading⟩, h⟩ := Option.ite_none_right_eq_some.mp h
  obtain ⟨state, hstate, rfl⟩ := Option.map_eq_some_iff.mp h
  exact ⟨hclock, hreading, state, hstate, rfl⟩

theorem AllTruthful.step (h : AllTruthful tracked)
    (hstep : Staleness.step tracked timed = some next) : AllTruthful next := by
  obtain ⟨-, -, state, hstate, rfl⟩ := step_inv hstep
  obtain ⟨time, event⟩ := timed
  obtain ⟨task, call, rfl, -, rfl⟩ | ⟨task, now, source, moved, rfl, hmoved, rfl⟩ |
    ⟨task, order, moved, rfl, hmoved, rfl⟩ | ⟨task, outcome, rfl, -, rfl⟩ := step_cases hstate
  · refine ⟨h.source, fun other ↦ ?_⟩
    rw [tasks_setTask]
    split
    · trivial
    · exact h.tasks other
  · obtain ⟨hsource, htask⟩ := h.source.advance (h.tasks task) hmoved
    refine ⟨hsource, fun other ↦ ?_⟩
    change TaskTruthful (tracked.carriedAfter (.advance task now) other)
      ((tracked.state.setTask source task moved).tasks other)
    rw [tasks_setTask, carriedAfter_advance]
    split
    · exact htask
    · exact h.tasks other
  · refine ⟨h.source, fun other ↦ ?_⟩
    change TaskTruthful (tracked.carriedAfter (.snapshot task order) other)
      ((tracked.state.setTask tracked.state.source task moved).tasks other)
    rw [tasks_setTask, carriedAfter_snapshot]
    split
    · exact h.source.snapshot hmoved
    · exact h.tasks other
  · refine ⟨h.source, fun other ↦ ?_⟩
    rw [tasks_setTask]
    split
    · trivial
    · exact h.tasks other

/-- The reader is in a call that began no later than now, and what it has found so far is fresh. -/
structure Reading (reader : Task) (begun : SystemTime) (call : Expiring.Call) (tracked : Tracked Task) :
    Prop where
  truthful : AllTruthful tracked
  began : begun ≤ tracked.clock
  honest : Honest begun call (tracked.carried reader) (tracked.state.tasks reader)

/-- A call in flight stays honest until it returns. -/
theorem Reading.step (h : Reading reader begun call tracked)
    (hreturns : ∀ outcome, timed.2 ≠ .complete reader outcome)
    (hstep : Staleness.step tracked timed = some next) : Reading reader begun call next := by
  have htruthful := h.truthful.step hstep
  obtain ⟨hclock, hreading, state, hstate, rfl⟩ := step_inv hstep
  obtain ⟨time, event⟩ := timed
  refine ⟨htruthful, le_trans h.began hclock, ?_⟩
  change Honest begun call (tracked.carriedAfter _ reader) (State.tasks _ reader)
  have hhonest := h.honest
  obtain ⟨task, other, rfl, hmoved, rfl⟩ | ⟨task, now, source, moved, rfl, hmoved, rfl⟩ |
    ⟨task, order, moved, rfl, hmoved, rfl⟩ | ⟨task, outcome, rfl, hmoved, rfl⟩ := step_cases hstate
  · have hne : reader ≠ task := by
      rintro rfl
      rw [hmoved] at hhonest
      exact hhonest
    rw [tasks_setTask, if_neg hne]
    exact hhonest
  · have hnow : now = time := hreading now rfl
    rw [tasks_setTask, carriedAfter_advance]
    split
    · next heq =>
      subst heq
      exact hhonest.advance (hnow ▸ le_trans h.began hclock) (h.truthful.tasks reader) hmoved
    · exact hhonest
  · rw [tasks_setTask, carriedAfter_snapshot]
    split
    · exact Honest.snapshot hmoved
    · exact hhonest
  · have hne : reader ≠ task := by
      rintro rfl
      exact hreturns outcome rfl
    rw [tasks_setTask, if_neg hne]
    exact hhonest

/-- In every run, a call that begins at `begun` and reports a value for a key reports the value of a
write whose deadline, if it carried one, lies after `begun`. -/
theorem fresh_of_reports {clock ended : SystemTime} {before during : List (SystemTime × Event Task)}
    {outcome : Expiring.Outcome} {key : Str}
    (hreturns : ∀ timed ∈ during, ∀ outcome, timed.2 ≠ .complete reader outcome)
    (hrun : run step (Tracked.initial Task clock) (before ++ (begun, .invoke reader call) ::
      (during ++ [(ended, .complete reader outcome)])) = some final)
    (hreports : Reports key call outcome) : ∀ t ∈ final.carried reader key, begun < t := by
  obtain ⟨start, hbefore, hrun⟩ := (run_append_eq_some step).mp hrun
  obtain ⟨called, hinvoke, hrun⟩ := (run_cons_eq_some step).mp hrun
  obtain ⟨answered, hduring, hrun⟩ := (run_append_eq_some step).mp hrun
  obtain ⟨idle, hcomplete, hrun⟩ := (run_cons_eq_some step).mp hrun
  obtain rfl : idle = final := by simpa using hrun
  have htruthful : AllTruthful start :=
    invariant_of_run step AllTruthful (fun _ _ _ h hstep ↦ h.step hstep)
      (allTruthful_initial clock) hbefore
  have hcalled : Reading reader begun call called := by
    have htruthful := htruthful.step hinvoke
    obtain ⟨-, -, state, hstate, rfl⟩ := step_inv hinvoke
    obtain ⟨-, hmoved⟩ := Option.ite_none_right_eq_some.mp hstate
    refine ⟨htruthful, le_rfl, ?_⟩
    rw [← Option.some_inj.mp hmoved, tasks_setTask, if_pos rfl]
    rfl
  have hanswered : Reading reader begun call answered :=
    invariant_of_everyStep step _ (Reading reader begun call)
      (fun _ _ _ h hevent hstep ↦ h.step hevent.2 hstep) hcalled
      ((everyStep_true step called during).and_forall_mem step hreturns) hduring
  obtain ⟨-, -, state, hstate, rfl⟩ := step_inv hcomplete
  obtain ⟨hfinished, -⟩ := Option.ite_none_right_eq_some.mp hstate
  have hhonest := hanswered.honest
  rw [hfinished] at hhonest
  exact hhonest key hreports

/-- A get just before the second of the deadline. -/
theorem fresh_of_reports_get :
    ∃ final, run step (Tracked.initial Bool 0)
        ([(0, .invoke false (.setExpiring ['k'] ['v'] (some 10500000000))), (0, .advance false 0),
            (0, .advance false 0), (0, .complete false .stored)] ++
          (9999999999, .invoke true (.query .get ['k'])) ::
            ([(9999999999, .advance true 9999999999), (9999999999, .advance true 9999999999)] ++
              [(9999999999, .complete true (.value (some ['v'])))])) = some final ∧
      ∀ t ∈ final.carried true ['k'], 9999999999 < t := by
  have hreports : Reports ['k'] (.query .get ['k']) (.value (some ['v'])) := ⟨rfl, rfl⟩
  obtain ⟨final, hrun⟩ : ∃ final, run step (Tracked.initial Bool 0)
      ([(0, .invoke false (.setExpiring ['k'] ['v'] (some 10500000000))), (0, .advance false 0),
          (0, .advance false 0), (0, .complete false .stored)] ++
        (9999999999, .invoke true (.query .get ['k'])) ::
          ([(9999999999, .advance true 9999999999), (9999999999, .advance true 9999999999)] ++
            [(9999999999, .complete true (.value (some ['v'])))])) = some final := ⟨_, rfl⟩
  exact ⟨final, hrun, fresh_of_reports (by simp) hrun hreports⟩

end Runs

end SolidCommunity.SolidStorage.Staleness
