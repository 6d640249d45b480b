import Mathlib.Data.Fintype.Defs
import Mathlib.Logic.Function.Basic
import SolidCommunity.Foundations.FiniteMap
import SolidCommunity.Foundations.Runs
import SolidCommunity.Foundations.Text

/-!
# The Expiring Storage

The wrapper stores every value in an envelope with an optional deadline.  Its calls and the
background sweep are tasks that reach the inner storage in single atomic accesses, read the clock
whenever they judge an envelope, and interleave in between.  An eviction judges an envelope first
and deletes by key later, so it can delete a value that was written in between; a completed set
survives every run in which no eviction finds an envelope without a deadline.
-/

namespace SolidCommunity.SolidStorage.Expiring

open Foundations.FiniteMap Foundations.Runs Foundations.Text

/-! ## Envelopes -/

/-- Nanoseconds since the Unix epoch. -/
abbrev SystemTime := ℤ

/-- The whole seconds since the Unix epoch, and zero before it. -/
def unixSecs (time : SystemTime) : ℕ := (time / 1000000000).toNat

theorem unixSecs_le {time later : SystemTime} (h : time ≤ later) : unixSecs time ≤ unixSecs later :=
  Int.toNat_le_toNat (Int.ediv_le_ediv (by decide) h)

/-- The stored envelope; an absent expiry never elapses. -/
structure ExpiresWrapper where
  expires : Option ℕ
  payload : Str
deriving DecidableEq, Repr

namespace ExpiresWrapper

def new (payload : Str) (expires : Option SystemTime) : ExpiresWrapper where
  expires := expires.map unixSecs
  payload := payload

def isExpired (wrapper : ExpiresWrapper) (now : SystemTime) : Bool :=
  match wrapper.expires with
  | some expiry => expiry ≤ unixSecs now
  | none => false

end ExpiresWrapper

/-- The inner storage, each access of which is atomic. -/
abbrev Source := HashMap Str ExpiresWrapper

/-- What `entries` returns of the inner storage, in any order. -/
abbrev SourceEntries := List (Sigma fun _ : Str ↦ ExpiresWrapper)

/-! ## Tasks -/

/-- The two calls that look a key up. -/
inductive Query where
  | get
  | has
deriving DecidableEq

/-- The calls of the storage, and the background sweep. -/
inductive Call where
  | query (query : Query) (key : Str)
  | set (key value : Str)
  | setExpiring (key value : Str) (expires : Option SystemTime)
  | delete (key : Str)
  | entries
  | sweep
deriving DecidableEq

inductive Outcome where
  | value (result : Option Str)
  | found (flag : Bool)
  | stored
  | alreadyExpired
  | removed (flag : Bool)
  | listed (live : List (Str × Str))
  | swept
deriving DecidableEq

/-- `has` is `get` with its result reduced to a flag. -/
def Query.outcome (result : Option Str) : Query → Outcome
  | get => .value result
  | has => .found result.isSome

/-- Where a task stands between two atomic steps. -/
inductive TaskState where
  | idle
  | called (call : Call)
  | checking (query : Query) (key : Str) (wrapper : ExpiresWrapper)
  | evicting (query : Query) (key : Str)
  | storing (key : Str) (wrapper : ExpiresWrapper)
  | listing (rest : SourceEntries) (live : List (Str × Str))
  | sweeping (rest : SourceEntries) (expired : List Str)
  | purging (keys : List Str)
  | finished (outcome : Outcome)
deriving DecidableEq

/-- The next atomic access or clock reading of a task, with the clock at `now`. -/
def advance (source : Source) (now : SystemTime) : TaskState → Option (Source × TaskState)
  | .called (.query query key) =>
    match source.lookup key with
    | none => some (source, .finished (query.outcome none))
    | some wrapper => some (source, .checking query key wrapper)
  | .checking query key wrapper =>
    if wrapper.isExpired now then some (source, .evicting query key)
    else some (source, .finished (query.outcome (some wrapper.payload)))
  | .evicting query key => some (source.erase key, .finished (query.outcome none))
  | .called (.set key value) =>
    some (source.insert key (ExpiresWrapper.new value none), .finished .stored)
  | .called (.setExpiring key value expires) =>
    if expires.any (· ≤ now) then some (source, .finished .alreadyExpired)
    else some (source, .storing key (ExpiresWrapper.new value expires))
  | .storing key wrapper => some (source.insert key wrapper, .finished .stored)
  | .called (.delete key) => some (source.erase key, .finished (.removed (key ∈ source)))
  | .listing [] live => some (source, .finished (.listed live))
  | .listing (⟨key, wrapper⟩ :: rest) live =>
    some (source, .listing rest
      (if wrapper.isExpired now then live else live ++ [(key, wrapper.payload)]))
  | .sweeping [] expired => some (source, .purging expired)
  | .sweeping (⟨key, wrapper⟩ :: rest) expired =>
    some (source, .sweeping rest (if wrapper.isExpired now then expired ++ [key] else expired))
  | .purging [] => some (source, .finished .swept)
  | .purging (key :: keys) => some (source.erase key, .purging keys)
  | _ => none

/-- The snapshot of the inner storage that `entries` and the sweep begin with. -/
def snapshot (source : Source) (order : SourceEntries) : TaskState → Option TaskState
  | .called .entries => if (order : Multiset _) = source.entries then some (.listing order []) else none
  | .called .sweep => if (order : Multiset _) = source.entries then some (.sweeping order []) else none
  | _ => none

/-- The inner storage and the tasks that share it. -/
structure State (Task : Type*) where
  source : Source
  tasks : Task → TaskState

inductive Event (Task : Type*) where
  | invoke (task : Task) (call : Call)
  | advance (task : Task) (now : SystemTime)
  | snapshot (task : Task) (order : SourceEntries)
  | complete (task : Task) (outcome : Outcome)
deriving DecidableEq

variable {Task : Type*} [DecidableEq Task]

def State.initial (Task : Type*) : State Task where
  source := ∅
  tasks _ := .idle

def State.setTask (state : State Task) (source : Source) (task : Task) (next : TaskState) :
    State Task where
  source := source
  tasks := Function.update state.tasks task next

def step (state : State Task) : Event Task → Option (State Task)
  | .invoke task call =>
    if state.tasks task = .idle then some (state.setTask state.source task (.called call)) else none
  | .advance task now =>
    (advance state.source now (state.tasks task)).map fun result ↦
      state.setTask result.1 task result.2
  | .snapshot task order =>
    (snapshot state.source order (state.tasks task)).map (state.setTask state.source task)
  | .complete task outcome =>
    if state.tasks task = .finished outcome then some (state.setTask state.source task .idle)
    else none

/-! ## Which steps touch a key -/

/-- Whether a call writes the key on behalf of its client. -/
def Call.writes (key : Str) : Call → Bool
  | .set other _ => other == key
  | .setExpiring other _ _ => other == key
  | .delete other => other == key
  | _ => false

/-- Whether a task has yet to write the key on behalf of its client. -/
def TaskState.writes (key : Str) : TaskState → Bool
  | .called call => call.writes key
  | .storing other _ => other == key
  | _ => false

/-- The key that the next step of a task evicts. -/
def TaskState.evictedKey : TaskState → Option Str
  | .evicting _ key => some key
  | .purging (key :: _) => some key
  | _ => none

/-- Everything that one atomic step of a task can do. -/
inductive AtomicStep (source : Source) (now : SystemTime) : TaskState → Source → TaskState → Prop
  | absent (query : Query) {key : Str} (hlookup : source.lookup key = none) :
    AtomicStep source now (.called (.query query key)) source (.finished (query.outcome none))
  | found (query : Query) {key : Str} {wrapper : ExpiresWrapper}
    (hlookup : source.lookup key = some wrapper) :
    AtomicStep source now (.called (.query query key)) source (.checking query key wrapper)
  | expired (query : Query) (key : Str) {wrapper : ExpiresWrapper}
    (hexpired : wrapper.isExpired now = true) :
    AtomicStep source now (.checking query key wrapper) source (.evicting query key)
  | live (query : Query) (key : Str) {wrapper : ExpiresWrapper}
    (hlive : wrapper.isExpired now = false) :
    AtomicStep source now (.checking query key wrapper) source
      (.finished (query.outcome (some wrapper.payload)))
  | evict (query : Query) (key : Str) :
    AtomicStep source now (.evicting query key) (source.erase key) (.finished (query.outcome none))
  | set (key value : Str) :
    AtomicStep source now (.called (.set key value))
      (source.insert key (ExpiresWrapper.new value none)) (.finished .stored)
  | reject (key value : Str) {expires : Option SystemTime}
    (hpast : expires.any (· ≤ now) = true) :
    AtomicStep source now (.called (.setExpiring key value expires)) source
      (.finished .alreadyExpired)
  | wrap (key value : Str) {expires : Option SystemTime}
    (hahead : expires.any (· ≤ now) = false) :
    AtomicStep source now (.called (.setExpiring key value expires)) source
      (.storing key (ExpiresWrapper.new value expires))
  | store (key : Str) (wrapper : ExpiresWrapper) :
    AtomicStep source now (.storing key wrapper) (source.insert key wrapper) (.finished .stored)
  | delete (key : Str) :
    AtomicStep source now (.called (.delete key)) (source.erase key)
      (.finished (.removed (key ∈ source)))
  | listed (live : List (Str × Str)) :
    AtomicStep source now (.listing [] live) source (.finished (.listed live))
  | list (key : Str) (wrapper : ExpiresWrapper) (rest : SourceEntries) (live : List (Str × Str)) :
    AtomicStep source now (.listing (⟨key, wrapper⟩ :: rest) live) source
      (.listing rest (if wrapper.isExpired now then live else live ++ [(key, wrapper.payload)]))
  | judged (expired : List Str) :
    AtomicStep source now (.sweeping [] expired) source (.purging expired)
  | judge (key : Str) (wrapper : ExpiresWrapper) (rest : SourceEntries) (expired : List Str) :
    AtomicStep source now (.sweeping (⟨key, wrapper⟩ :: rest) expired) source
      (.sweeping rest (if wrapper.isExpired now then expired ++ [key] else expired))
  | purged : AtomicStep source now (.purging []) source (.finished .swept)
  | purge (key : Str) (keys : List Str) :
    AtomicStep source now (.purging (key :: keys)) (source.erase key) (.purging keys)

theorem atomicStep_of_advance {source next : Source} {now : SystemTime} {task moved : TaskState}
    (h : advance source now task = some (next, moved)) :
    AtomicStep source now task next moved := by
  cases task with
  | idle | finished => simp [advance] at h
  | called call =>
    cases call with
    | query query key =>
      rw [advance] at h
      split at h
      · next hlookup =>
        cases h
        exact .absent query hlookup
      · next wrapper hlookup =>
        cases h
        exact .found query hlookup
    | set key value =>
      cases h
      exact .set key value
    | setExpiring key value expires =>
      rw [advance] at h
      split at h
      · next hpast =>
        cases h
        exact .reject key value hpast
      · next hahead =>
        cases h
        exact .wrap key value (Bool.eq_false_of_not_eq_true hahead)
    | delete key =>
      cases h
      exact .delete key
    | entries | sweep => simp [advance] at h
  | checking query key wrapper =>
    rw [advance] at h
    split at h
    · next hexpired =>
      cases h
      exact .expired query key hexpired
    · next hlive =>
      cases h
      exact .live query key (Bool.eq_false_of_not_eq_true hlive)
  | evicting query key =>
    cases h
    exact .evict query key
  | storing key wrapper =>
    cases h
    exact .store key wrapper
  | listing rest live =>
    cases rest with
    | nil =>
      cases h
      exact .listed live
    | cons entry rest =>
      cases h
      exact .list entry.1 entry.2 rest live
  | sweeping rest expired =>
    cases rest with
    | nil =>
      cases h
      exact .judged expired
    | cons entry rest =>
      cases h
      exact .judge entry.1 entry.2 rest expired
  | purging keys =>
    cases keys with
    | nil =>
      cases h
      exact .purged
    | cons key keys =>
      cases h
      exact .purge key keys

/-- A listing and a sweep begin with a snapshot. -/
theorem snapshot_cases {source : Source} {order : SourceEntries} {task moved : TaskState}
    (h : snapshot source order task = some moved) :
    (order : Multiset _) = source.entries ∧
      ((task = .called .entries ∧ moved = .listing order []) ∨
        (task = .called .sweep ∧ moved = .sweeping order [])) := by
  unfold snapshot at h
  split at h
  · obtain ⟨horder, hmoved⟩ := Option.ite_none_right_eq_some.mp h
    exact ⟨horder, .inl ⟨rfl, (Option.some_inj.mp hmoved).symm⟩⟩
  · obtain ⟨horder, hmoved⟩ := Option.ite_none_right_eq_some.mp h
    exact ⟨horder, .inr ⟨rfl, (Option.some_inj.mp hmoved).symm⟩⟩
  · simp at h

/-- A key changes only by a client's write or an eviction. -/
theorem lookup_advance {source next : Source} {now : SystemTime} {task task' : TaskState}
    {key : Str} (h : advance source now task = some (next, task'))
    (hwrites : task.writes key = false) (hevicts : task.evictedKey ≠ some key) :
    next.lookup key = source.lookup key := by
  have herase {other : Str} (hother : other ≠ key) :
      (source.erase other).lookup key = source.lookup key := by
    rw [lookup_erase_eq_ite, if_neg hother.symm]
  have hinsert {other : Str} (hother : other ≠ key) (wrapper : ExpiresWrapper) :
      (source.insert other wrapper).lookup key = source.lookup key := by
    rw [lookup_insert_eq_ite, if_neg hother.symm]
  cases atomicStep_of_advance h with
  | evict query other => exact herase (ne_of_apply_ne some hevicts)
  | purge other keys => exact herase (ne_of_apply_ne some hevicts)
  | delete other => exact herase (beq_eq_false_iff_ne.mp hwrites)
  | set other value => exact hinsert (beq_eq_false_iff_ne.mp hwrites) _
  | store other wrapper => exact hinsert (beq_eq_false_iff_ne.mp hwrites) wrapper
  | _ => rfl

/-- A task does not take up a client's write by itself. -/
theorem writes_of_advance {source next : Source} {now : SystemTime} {task task' : TaskState}
    {key : Str} (h : advance source now task = some (next, task'))
    (hwrites : task'.writes key = true) : task.writes key = true := by
  cases atomicStep_of_advance h with
  | wrap => exact hwrites
  | _ => exact absurd hwrites Bool.false_ne_true

theorem writes_of_snapshot {source : Source} {order : SourceEntries} {task task' : TaskState}
    (h : snapshot source order task = some task') (key : Str) : task'.writes key = false := by
  obtain ⟨-, ⟨-, rfl⟩ | ⟨-, rfl⟩⟩ := snapshot_cases h
  · rfl
  · rfl

/-- Every step moves one task. -/
theorem step_cases {state next : State Task} {event : Event Task} (h : step state event = some next) :
    (∃ task call, event = .invoke task call ∧ state.tasks task = .idle ∧
      next = state.setTask state.source task (.called call)) ∨
    (∃ task now source task', event = .advance task now ∧
      advance state.source now (state.tasks task) = some (source, task') ∧
      next = state.setTask source task task') ∨
    (∃ task order task', event = .snapshot task order ∧
      snapshot state.source order (state.tasks task) = some task' ∧
      next = state.setTask state.source task task') ∨
    (∃ task outcome, event = .complete task outcome ∧ state.tasks task = .finished outcome ∧
      next = state.setTask state.source task .idle) := by
  cases event with
  | invoke task call =>
    simp only [step, Option.ite_none_right_eq_some, Option.some_inj] at h
    exact .inl ⟨task, call, rfl, h.1, h.2.symm⟩
  | advance task now =>
    obtain ⟨⟨source, task'⟩, hadvance, rfl⟩ := Option.map_eq_some_iff.mp h
    exact .inr (.inl ⟨task, now, source, task', rfl, hadvance, rfl⟩)
  | snapshot task order =>
    obtain ⟨task', hsnapshot, rfl⟩ := Option.map_eq_some_iff.mp h
    exact .inr (.inr (.inl ⟨task, order, task', rfl, hsnapshot, rfl⟩))
  | complete task outcome =>
    simp only [step, Option.ite_none_right_eq_some, Option.some_inj] at h
    exact .inr (.inr (.inr ⟨task, outcome, rfl, h.1, h.2.symm⟩))

/-! ## Evictions that spare fresh writes -/

/-- Whether an event starts a client's write of the key. -/
def Event.startsWrite (key : Str) : Event Task → Bool
  | .invoke _ call => call.writes key
  | _ => false

/-- The key that an event evicts. -/
def State.evictedKey (state : State Task) : Event Task → Option Str
  | .advance task _ => (state.tasks task).evictedKey
  | _ => none

/-- An eviction finds no envelope without a deadline. -/
def SparesLasting (state : State Task) (event : Event Task) : Prop :=
  ∀ key ∈ state.evictedKey event, ∀ wrapper ∈ state.source.lookup key,
    wrapper.expires.isSome = true

instance (state : State Task) (event : Event Task) : Decidable (SparesLasting state event) :=
  inferInstanceAs (Decidable (∀ key ∈ state.evictedKey event,
    ∀ wrapper ∈ state.source.lookup key, wrapper.expires.isSome = true))

/-- No task has yet to write the key. -/
def Quiet (key : Str) (state : State Task) : Prop :=
  ∀ task, (state.tasks task).writes key = false

instance [Fintype Task] (key : Str) (state : State Task) : Decidable (Quiet key state) :=
  inferInstanceAs (Decidable (∀ task, (state.tasks task).writes key = false))

/-- The events are a completed set of the key and a get that starts afterwards and returns
`result`, and no other write of the key overlaps or follows the set. -/
def GetAfterSet (key value : Str) (result : Option Str) (before : State Task)
    (events : List (Event Task)) : Prop :=
  Quiet key before ∧ ∃ writer during between reader rest,
    events = .invoke writer (.set key value) :: during ++
      (.complete writer .stored :: between ++
        (.invoke reader (.query .get key) :: rest ++ [.complete reader (.value result)])) ∧
    (∀ event ∈ during ++ between ++ rest, event.startsWrite key = false) ∧
    (∀ outcome, .complete writer outcome ∉ during) ∧ ∀ outcome, .complete reader outcome ∉ rest

/-- The value is stored without a deadline, and no other write is in flight. -/
structure Settled (key value : Str) (state : State Task) : Prop where
  lookup : state.source.lookup key = some ⟨none, value⟩
  quiet : Quiet key state

/-- The set has been called and is the only write in flight. -/
structure Pending (key value : Str) (writer : Task) (state : State Task) : Prop where
  called : state.tasks writer = .called (.set key value)
  others : ∀ task, task ≠ writer → (state.tasks task).writes key = false

variable {key value : Str} {state next : State Task} {event : Event Task}

theorem tasks_setTask (state : State Task) (source : Source) (task other : Task)
    (moved : TaskState) :
    (state.setTask source task moved).tasks other =
      if other = task then moved else state.tasks other :=
  Function.update_apply ..

/-- Another task moves without taking up a write. -/
theorem Pending.setTask {writer task : Task} (h : Pending key value writer state)
    (hne : task ≠ writer) (source : Source) {moved : TaskState} (hmoved : moved.writes key = false) :
    Pending key value writer (state.setTask source task moved) where
  called := by rw [tasks_setTask, if_neg (Ne.symm hne), h.called]
  others other hother := by
    rw [tasks_setTask]
    split
    · exact hmoved
    · exact h.others other hother

/-- A task moves without taking up a write or touching the key. -/
theorem Settled.setTask (h : Settled key value state) (task : Task) {source : Source}
    (hsource : source.lookup key = state.source.lookup key) {moved : TaskState}
    (hmoved : moved.writes key = false) :
    Settled key value (state.setTask source task moved) where
  lookup := hsource.trans h.lookup
  quiet other := by
    rw [tasks_setTask]
    split
    · exact hmoved
    · exact h.quiet other

/-- While the set is pending no other write starts, and its own access settles the value. -/
theorem Pending.step {writer : Task} (h : Pending key value writer state)
    (hstarts : event.startsWrite key = false) (hstep : Expiring.step state event = some next) :
    Pending key value writer next ∨ Settled key value next := by
  obtain ⟨task, call, rfl, hidle, rfl⟩ | ⟨task, now, source, moved, rfl, hadvance, rfl⟩ |
    ⟨task, order, moved, rfl, hsnapshot, rfl⟩ | ⟨task, outcome, rfl, hfinished, rfl⟩ :=
    step_cases hstep
  · have hne : task ≠ writer := by
      rintro rfl
      simp [h.called] at hidle
    exact .inl (h.setTask hne _ hstarts)
  · by_cases hwriter : task = writer
    · subst hwriter
      rw [h.called, advance, Option.some_inj, Prod.mk.injEq] at hadvance
      obtain ⟨rfl, rfl⟩ := hadvance
      refine .inr ⟨Finmap.lookup_insert _, fun other ↦ ?_⟩
      rw [tasks_setTask]
      split
      · rfl
      · next hother => exact h.others other hother
    · refine .inl (h.setTask hwriter _ ?_)
      by_contra hwrites
      have hbefore := writes_of_advance hadvance (Bool.eq_true_of_not_eq_false hwrites)
      simp [h.others task hwriter] at hbefore
  · have hne : task ≠ writer := by
      rintro rfl
      simp [h.called, snapshot] at hsnapshot
    exact .inl (h.setTask hne _ (writes_of_snapshot hsnapshot key))
  · have hne : task ≠ writer := by
      rintro rfl
      simp [h.called] at hfinished
    exact .inl (h.setTask hne _ rfl)

/-- A settled value stays while no write of the key starts and evictions spare lasting values. -/
theorem Settled.step (h : Settled key value state) (hspares : SparesLasting state event)
    (hstarts : event.startsWrite key = false) (hstep : Expiring.step state event = some next) :
    Settled key value next := by
  obtain ⟨task, call, rfl, hidle, rfl⟩ | ⟨task, now, source, moved, rfl, hadvance, rfl⟩ |
    ⟨task, order, moved, rfl, hsnapshot, rfl⟩ | ⟨task, outcome, rfl, hfinished, rfl⟩ :=
    step_cases hstep
  · exact h.setTask task rfl hstarts
  · have hevicts : (state.tasks task).evictedKey ≠ some key := by
      intro hevicts
      have hdeadline := hspares key hevicts _ h.lookup
      simp at hdeadline
    refine h.setTask task (lookup_advance hadvance (h.quiet task) hevicts) ?_
    by_contra hwrites
    have hbefore := writes_of_advance hadvance (Bool.eq_true_of_not_eq_false hwrites)
    simp [h.quiet task] at hbefore
  · exact h.setTask task rfl (writes_of_snapshot hsnapshot key)
  · exact h.setTask task rfl rfl

/-- What a get of a settled key can have found so far. -/
def Expects (key value : Str) : TaskState → Prop
  | .called call => call = .query .get key
  | .checking query other wrapper => query = .get ∧ other = key ∧ wrapper = ⟨none, value⟩
  | .finished outcome => outcome = .value (some value)
  | _ => False

theorem Expects.advance {source next : Source} {now : SystemTime} {task moved : TaskState}
    (h : Expects key value task) (hlookup : source.lookup key = some ⟨none, value⟩)
    (hadvance : Expiring.advance source now task = some (next, moved)) :
    Expects key value moved := by
  cases task with
  | called call =>
    obtain rfl : call = .query .get key := h
    simp only [Expiring.advance, hlookup, Option.some_inj, Prod.mk.injEq] at hadvance
    rw [← hadvance.2]
    exact ⟨rfl, rfl, rfl⟩
  | checking query other wrapper =>
    obtain ⟨rfl, rfl, rfl⟩ := h
    simp only [Expiring.advance, ExpiresWrapper.isExpired, Bool.false_eq_true, if_false,
      Option.some_inj, Prod.mk.injEq] at hadvance
    rw [← hadvance.2]
    rfl
  | finished outcome => simp [Expiring.advance] at hadvance
  | idle | evicting | storing | listing | sweeping | purging => exact h.elim

theorem Expects.snapshot {source : Source} {order : SourceEntries} {task : TaskState}
    (h : Expects key value task) : Expiring.snapshot source order task = none := by
  cases task with
  | called call =>
    obtain rfl : call = .query .get key := h
    rfl
  | _ => rfl

/-- A get that started on a settled key keeps expecting its value. -/
theorem Expects.step {reader : Task} (hsettled : Settled key value state)
    (h : Expects key value (state.tasks reader)) (hreturns : ∀ outcome, event ≠ .complete reader outcome)
    (hstep : Expiring.step state event = some next) : Expects key value (next.tasks reader) := by
  obtain ⟨task, call, rfl, hmoved, rfl⟩ | ⟨task, now, source, moved, rfl, hmoved, rfl⟩ |
    ⟨task, order, moved, rfl, hmoved, rfl⟩ | ⟨task, outcome, rfl, hmoved, rfl⟩ :=
    step_cases hstep <;> rw [tasks_setTask] <;> split <;> try exact h
  · next hreader =>
    rw [hreader, hmoved] at h
    exact h.elim
  · next hreader =>
    rw [hreader] at h
    exact h.advance hsettled.lookup hmoved
  · next hreader =>
    rw [hreader] at h
    exact absurd hmoved (by simp [h.snapshot])
  · next hreader => exact absurd rfl (hreader ▸ hreturns outcome)

/-! ## Runs -/

section Runs

variable {final : State Task} {events : List (Event Task)}

theorem Pending.run {writer : Task} (h : Pending key value writer state)
    (hrun : run Expiring.step state events = some final)
    (hspares : EveryStep Expiring.step SparesLasting state events)
    (hstarts : ∀ event ∈ events, event.startsWrite key = false) :
    Pending key value writer final ∨ Settled key value final := by
  refine invariant_of_everyStep Expiring.step _
    (fun state ↦ Pending key value writer state ∨ Settled key value state) ?_ (.inl h)
    (hspares.and_forall_mem _ hstarts) hrun
  rintro state event next (hpending | hsettled) ⟨hspares, hstarts⟩ hstep
  · exact hpending.step hstarts hstep
  · exact .inr (hsettled.step hspares hstarts hstep)

theorem Settled.run (h : Settled key value state)
    (hrun : run Expiring.step state events = some final)
    (hspares : EveryStep Expiring.step SparesLasting state events)
    (hstarts : ∀ event ∈ events, event.startsWrite key = false) : Settled key value final :=
  invariant_of_everyStep Expiring.step _ (Settled key value)
    (fun _ _ _ hsettled hevent hstep ↦ hsettled.step hevent.1 hevent.2 hstep) h
    (hspares.and_forall_mem _ hstarts) hrun

/-- A get that started on a settled key expects its value until it returns. -/
theorem Expects.run {reader : Task} (hsettled : Settled key value state)
    (h : Expects key value (state.tasks reader))
    (hrun : run Expiring.step state events = some final)
    (hspares : EveryStep Expiring.step SparesLasting state events)
    (hstarts : ∀ event ∈ events, event.startsWrite key = false)
    (hreturns : ∀ outcome, .complete reader outcome ∉ events) :
    Expects key value (final.tasks reader) := by
  have hlabels : ∀ event ∈ events, event.startsWrite key = false ∧
      ∀ outcome, event ≠ .complete reader outcome := fun event hevent ↦
    ⟨hstarts event hevent, fun outcome heq ↦ hreturns outcome (heq ▸ hevent)⟩
  have hinvariant := invariant_of_everyStep Expiring.step _
    (fun state ↦ Settled key value state ∧ Expects key value (state.tasks reader))
    (fun _ _ _ hstate hevent hstep ↦ ⟨hstate.1.step hevent.1 hevent.2.1 hstep,
      hstate.2.step hstate.1 hevent.2.2 hstep⟩) ⟨hsettled, h⟩
    (hspares.and_forall_mem _ hlabels) hrun
  exact hinvariant.2

/-- Invoking the set on a quiet key leaves it pending. -/
theorem Quiet.pending {writer : Task} (h : Quiet key state)
    (hstep : step state (.invoke writer (.set key value)) = some next) :
    Pending key value writer next := by
  simp only [step, Option.ite_none_right_eq_some, Option.some_inj] at hstep
  obtain ⟨-, rfl⟩ := hstep
  refine ⟨by rw [tasks_setTask, if_pos rfl], fun other hother ↦ ?_⟩
  rw [tasks_setTask, if_neg hother]
  exact h other

/-- A set without a deadline survives every run in which evictions spare lasting values: a get that
starts after it returns its value. -/
theorem get_after_set {result : Option Str} {before : State Task}
    (hscenario : GetAfterSet key value result before events)
    (hrun : run step before events = some final)
    (hspares : EveryStep step SparesLasting before events) : result = some value := by
  obtain ⟨hquiet, writer, during, between, reader, rest, rfl, hstarts, -, hreturns⟩ := hscenario
  simp only [List.mem_append, or_imp, forall_and] at hstarts
  -- The set is called, and its own access has settled the value when it returns.
  obtain ⟨called, hcalled, hrun⟩ := (run_cons_eq_some step).mp hrun
  obtain ⟨stored, hduring, hrun⟩ := (run_append_eq_some step).mp hrun
  obtain ⟨hspares₁, hspares⟩ := (hspares.2 called hcalled).of_append step hduring
  have hstored := (hquiet.pending hcalled).run hduring hspares₁ hstarts.1.1
  obtain ⟨returned, hreturned, hrun⟩ := (run_cons_eq_some step).mp hrun
  have hsettled : Settled key value stored := by
    rcases hstored with hpending | hsettled
    · simp [step, hpending.called] at hreturned
    · exact hsettled
  -- The value stays settled until the get is called.
  have hsettled := hsettled.step hspares.1 rfl hreturned
  obtain ⟨idle, hbetween, hrun⟩ := (run_append_eq_some step).mp hrun
  obtain ⟨hspares₂, hspares⟩ := (hspares.2 returned hreturned).of_append step hbetween
  have hsettled := hsettled.run hbetween hspares₂ hstarts.1.2
  -- The get expects the value until it returns.
  obtain ⟨reading, hreading, hrun⟩ := (run_cons_eq_some step).mp hrun
  obtain ⟨answered, hrest, hrun⟩ := (run_append_eq_some step).mp hrun
  obtain ⟨hspares₃, -⟩ := (hspares.2 reading hreading).of_append step hrest
  have hcall : Expects key value (reading.tasks reader) := by
    simp only [step, Option.ite_none_right_eq_some, Option.some_inj] at hreading
    rw [← hreading.2, tasks_setTask, if_pos rfl]
    rfl
  have hexpects := hcall.run (hsettled.step hspares.1 rfl hreading) hrest hspares₃ hstarts.2
    hreturns
  obtain ⟨_, hanswered, -⟩ := (run_cons_eq_some step).mp hrun
  simp only [step, Option.ite_none_right_eq_some] at hanswered
  rw [hanswered.1] at hexpects
  exact (Outcome.value.inj hexpects)

end Runs

/-- While a set of `k` is served, `l` is stored until second 10 and a sweep lists both. -/
def listedBeside : List (Event Bool) :=
  [.invoke true (.setExpiring ['l'] ['o'] (some 10000000000)), .advance true 0, .advance true 0,
    .complete true .stored, .invoke true .sweep, .advance false 0,
    .snapshot true [⟨['l'], ⟨some 10, ['o']⟩⟩, ⟨['k'], ⟨none, ['v']⟩⟩]]

/-- The sweep goes on in second 20. -/
def sweptBeside : List (Event Bool) :=
  List.replicate 5 (.advance true 20000000000) ++ [.complete true .swept]

/-- A sweep evicts the expired value and leaves alone the fresh one that it lists beside it. -/
theorem get_after_set_beside_sweep :
    ∃ result final, run step (State.initial Bool)
        (.invoke false (.set ['k'] ['v']) :: listedBeside ++
          (.complete false .stored :: sweptBeside ++
            (.invoke false (.query .get ['k']) :: List.replicate 2 (.advance false 20000000000) ++
              [.complete false (.value result)]))) = some final ∧
      final.source.lookup ['l'] = none ∧ result = some ['v'] := by
  have hscenario : GetAfterSet ['k'] ['v'] (some ['v']) (State.initial Bool)
      (.invoke false (.set ['k'] ['v']) :: listedBeside ++
        (.complete false .stored :: sweptBeside ++
          (.invoke false (.query .get ['k']) :: List.replicate 2 (.advance false 20000000000) ++
            [.complete false (.value (some ['v']))]))) :=
    ⟨by decide, false, listedBeside, sweptBeside, false, _, rfl, by decide, by simp [listedBeside],
      by simp⟩
  exact ⟨some ['v'], _, rfl, rfl, get_after_set hscenario rfl (by decide)⟩

/-- A get that has found an expired value and deletes the fresh one written since then. -/
theorem exists_fresh_set_evicted :
    ∃ (before final : State Bool) (events : List (Event Bool)),
      Reachable step (State.initial Bool) before ∧ run step before events = some final ∧
      GetAfterSet ['k'] ['v'] none before events := by
  refine ⟨_, _, [.invoke false (.set ['k'] ['v']), .advance false 20000000000,
      .complete false .stored, .advance true 20000000000, .invoke false (.query .get ['k']),
      .advance false 20000000000, .complete false (.value none)],
    ⟨[.invoke false (.setExpiring ['k'] ['o'] (some 10000000000)), .advance false 0,
      .advance false 0, .complete false .stored, .invoke true (.query .get ['k']), .advance true 0,
      .advance true 10000000000], rfl⟩, rfl, by decide, false, [.advance false 20000000000],
    [.advance true 20000000000], false, [.advance false 20000000000], rfl, by decide, by simp,
    by simp⟩

end SolidCommunity.SolidStorage.Expiring
