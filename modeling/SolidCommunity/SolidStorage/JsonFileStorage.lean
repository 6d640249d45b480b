import Mathlib.Data.Finset.Basic
import Mathlib.Logic.Function.Basic
import SolidCommunity.Foundations.Runs
import SolidCommunity.SolidStorage.JsonFile
import SolidCommunity.SolidStorage.MemoryMap

/-!
# Concurrent Calls of the File Storage

Every call takes the storage's lock, shared if it only reads and exclusively if it may write, reads
the file, possibly writes it, and releases the lock; the steps of different tasks interleave.  The
configuration logs the calls in the order in which they took the lock.  Each call takes at most five
steps, and one that holds the lock is never stuck.
-/

namespace SolidCommunity.SolidStorage.JsonFileStorage

open Foundations.FiniteMap Foundations.Runs Foundations.Text JsonFile

variable {Task V Value : Type*}

/-! ## Tasks and lock -/

/-- Where a call stands; the index is its place in the log. -/
inductive TaskState (V Value : Type*) where
  | idle
  | waiting (call : Call V)
  | locked (call : Call V) (index : ℕ)
  | loaded (call : Call V) (index : ℕ) (map : HashMap Str Value)
  | finished (call : Call V) (index : ℕ) (outcome : Outcome V)

/-- The call that holds the lock, with its place in the log. -/
def TaskState.holds : TaskState V Value → Option (Call V × ℕ)
  | locked call index | loaded call index _ | finished call index _ => some (call, index)
  | idle | waiting _ => none

/-- The kind of the lock that is held: whether it is exclusive. -/
def TaskState.mode (current : TaskState V Value) : Option Bool :=
  current.holds.map (·.1.isWrite)

@[simp]
theorem TaskState.mode_idle : (idle : TaskState V Value).mode = none := rfl

@[simp]
theorem TaskState.mode_waiting (call : Call V) : (waiting call : TaskState V Value).mode = none :=
  rfl

@[simp]
theorem TaskState.mode_locked (call : Call V) (index : ℕ) :
    (locked call index : TaskState V Value).mode = some call.isWrite := rfl

@[simp]
theorem TaskState.mode_loaded (call : Call V) (index : ℕ) (raw : HashMap Str Value) :
    (loaded call index raw).mode = some call.isWrite := rfl

@[simp]
theorem TaskState.mode_finished (call : Call V) (index : ℕ) (outcome : Outcome V) :
    (finished call index outcome : TaskState V Value).mode = some call.isWrite := rfl

theorem TaskState.mode_of_holds {current : TaskState V Value} {call : Call V} {index : ℕ}
    (hholds : current.holds = some (call, index)) : current.mode = some call.isWrite := by
  rw [TaskState.mode, hholds, Option.map_some]

/-- The holders of the readers-writer lock. -/
structure RwLock (Task : Type*) where
  readers : Finset Task
  writer : Option Task

variable [DecidableEq Task]

/-- Whether the lock can be taken. -/
def RwLock.admits (lock : RwLock Task) (exclusive : Bool) : Bool :=
  lock.writer.isNone && (!exclusive || lock.readers = ∅)

def RwLock.acquire (lock : RwLock Task) (task : Task) (exclusive : Bool) : RwLock Task :=
  if exclusive then { lock with writer := some task }
  else { lock with readers := insert task lock.readers }

def RwLock.release (lock : RwLock Task) (task : Task) (exclusive : Bool) : RwLock Task :=
  if exclusive then { lock with writer := none }
  else { lock with readers := lock.readers.erase task }

theorem RwLock.admits_iff {lock : RwLock Task} {exclusive : Bool} :
    lock.admits exclusive = true ↔
      lock.writer = none ∧ (exclusive = true → lock.readers = ∅) := by
  cases exclusive <;> simp [RwLock.admits]

section Lock

variable {lock : RwLock Task} {task other : Task} (hne : other ≠ task)

include hne

theorem RwLock.mem_readers_acquire (exclusive : Bool) :
    other ∈ (lock.acquire task exclusive).readers ↔ other ∈ lock.readers := by
  cases exclusive <;> simp [RwLock.acquire, hne]

theorem RwLock.mem_readers_release (exclusive : Bool) :
    other ∈ (lock.release task exclusive).readers ↔ other ∈ lock.readers := by
  cases exclusive <;> simp [RwLock.release, hne]

theorem RwLock.writer_acquire (hfree : lock.writer = none) (exclusive : Bool) :
    (lock.acquire task exclusive).writer = some other ↔ lock.writer = some other := by
  cases exclusive <;> simp [RwLock.acquire, hfree, hne.symm]

theorem RwLock.writer_release {exclusive : Bool}
    (hheld : exclusive = true → lock.writer = some task) :
    (lock.release task exclusive).writer = some other ↔ lock.writer = some other := by
  cases exclusive
  · simp [RwLock.release]
  · simp [RwLock.release, hheld rfl, hne.symm]

end Lock

/-- A completed call: the task, its place in the log and its result. -/
structure Returned (Task V : Type*) where
  task : Task
  index : ℕ
  outcome : Outcome V

structure State (Task V Value : Type*) where
  file : File
  lock : RwLock Task
  tasks : Task → TaskState V Value
  log : List (Task × Call V)
  returned : List (Returned Task V)

def State.initial (Task V Value : Type*) (file : File) : State Task V Value where
  file := file
  lock := ⟨∅, none⟩
  tasks _ := .idle
  log := []
  returned := []

def State.setTask (state : State Task V Value) (task : Task) (next : TaskState V Value) :
    State Task V Value :=
  { state with tasks := Function.update state.tasks task next }

@[simp]
theorem State.setTask_tasks_self {state : State Task V Value} {task : Task}
    {next : TaskState V Value} : (state.setTask task next).tasks task = next :=
  Function.update_self ..

theorem State.setTask_tasks_of_ne {state : State Task V Value} {task other : Task}
    {next : TaskState V Value} (hne : other ≠ task) :
    (state.setTask task next).tasks other = state.tasks other :=
  Function.update_of_ne hne ..

/-! ## Steps -/

variable [DecidableEq Value]

/-- The result of a call that does not write, from the map it has read. -/
def answer (serde : SerdeJson V Value) (map : HashMap Str Value)
    (order : List (Sigma fun _ : Str ↦ Value)) : Call V → Option (Outcome V)
  | .get key =>
    match map.lookup key with
    | none => some (.value none)
    | some raw =>
      match serde.fromValue raw with
      | none => some (.failed .json)
      | some value => some (.value (some value))
  | .has key => some (.found (key ∈ map))
  | .set _ value => if (serde.toValue value).isNone then some (.failed .json) else none
  | .delete key => if key ∈ map then none else some (.removed false)
  | .entries =>
    if (order : Multiset _) = map.entries then
      match order.mapM fun entry ↦ (serde.fromValue entry.2).map (entry.1, ·) with
      | none => some (.failed .json)
      | some list => some (.listed list)
    else none

/-- The map that a call writes back, and its result when the write succeeds. -/
def rewrite (serde : SerdeJson V Value) (map : HashMap Str Value) :
    Call V → Option (HashMap Str Value × Outcome V)
  | .set key value => ((Update.set key value).target serde map).map (·, .stored)
  | .delete key => ((Update.delete key : Update V).target serde map).map (·, .removed true)
  | _ => none

inductive Event (Task V Value : Type*) where
  | invoke (task : Task) (call : Call V)
  | acquire (task : Task)
  | readFile (task : Task)
  | respond (task : Task) (order : List (Sigma fun _ : Str ↦ Value))
  | writeFile (task : Task) (order : AList (fun _ : Str ↦ Value))
  | release (task : Task)

def Event.task : Event Task V Value → Task
  | invoke task _ | acquire task | readFile task | respond task _ | writeFile task _
  | release task => task

/-- Whether a new call begins. -/
def Event.isInvoke : Event Task V Value → Bool
  | invoke _ _ => true
  | _ => false

/-- One step of one task, without failures of the file system. -/
def step (serde : SerdeJson V Value) (state : State Task V Value) :
    Event Task V Value → Option (State Task V Value)
  | .invoke task call =>
    match state.tasks task with
    | .idle => some (state.setTask task (.waiting call))
    | _ => none
  | .acquire task =>
    match state.tasks task with
    | .waiting call =>
      if state.lock.admits call.isWrite then
        some { state.setTask task (.locked call state.log.length) with
          lock := state.lock.acquire task call.isWrite
          log := state.log ++ [(task, call)] }
      else none
    | _ => none
  | .readFile task =>
    match state.tasks task with
    | .locked call index =>
      match readMap serde state.file with
      | .ok map => some (state.setTask task (.loaded call index map))
      | .error error => some (state.setTask task (.finished call index (.failed error)))
    | _ => none
  | .respond task order =>
    match state.tasks task with
    | .loaded call index map =>
      (answer serde map order call).map fun outcome ↦
        state.setTask task (.finished call index outcome)
    | _ => none
  | .writeFile task order =>
    match state.tasks task with
    | .loaded call index map =>
      (rewrite serde map call).bind fun result ↦
        if order.toFinmap = result.1 then
          match serde.toStringPretty order with
          | none => some (state.setTask task (.finished call index (.failed .json)))
          | some text =>
            some { state.setTask task (.finished call index result.2) with
              file := some (encode text) }
        else none
    | _ => none
  | .release task =>
    match state.tasks task with
    | .finished call index outcome =>
      some { state.setTask task .idle with
        lock := state.lock.release task call.isWrite
        returned := state.returned ++ [⟨task, index, outcome⟩] }
    | _ => none

/-! ## What a step does -/

section Inversion

variable {serde : SerdeJson V Value} {state next : State Task V Value} {task : Task}

theorem step_invoke {call : Call V} (h : step serde state (.invoke task call) = some next) :
    state.tasks task = .idle ∧ next = state.setTask task (.waiting call) := by
  cases htask : state.tasks task with
  | idle => exact ⟨rfl, by simpa [step, htask] using h.symm⟩
  | _ => simp [step, htask] at h

theorem step_acquire (h : step serde state (.acquire task) = some next) :
    ∃ call, state.tasks task = .waiting call ∧ state.lock.admits call.isWrite = true ∧
      next = { state.setTask task (.locked call state.log.length) with
        lock := state.lock.acquire task call.isWrite
        log := state.log ++ [(task, call)] } := by
  cases htask : state.tasks task with
  | waiting call =>
    simp only [step, htask, Option.ite_none_right_eq_some, Option.some_inj] at h
    exact ⟨call, rfl, h.1, h.2.symm⟩
  | _ => simp [step, htask] at h

theorem step_readFile (h : step serde state (.readFile task) = some next) :
    ∃ call index, state.tasks task = .locked call index ∧
      ((∃ raw, readMap serde state.file = .ok raw ∧
          next = state.setTask task (.loaded call index raw)) ∨
        ∃ error, readMap serde state.file = .error error ∧
          next = state.setTask task (.finished call index (.failed error))) := by
  cases htask : state.tasks task with
  | locked call index =>
    simp only [step, htask] at h
    cases hread : readMap serde state.file with
    | ok raw =>
      simp only [hread, Option.some_inj] at h
      exact ⟨call, index, rfl, .inl ⟨raw, rfl, h.symm⟩⟩
    | error error =>
      simp only [hread, Option.some_inj] at h
      exact ⟨call, index, rfl, .inr ⟨error, rfl, h.symm⟩⟩
  | _ => simp [step, htask] at h

theorem step_respond {order : List (Sigma fun _ : Str ↦ Value)}
    (h : step serde state (.respond task order) = some next) :
    ∃ call index raw outcome, state.tasks task = .loaded call index raw ∧
      answer serde raw order call = some outcome ∧
      next = state.setTask task (.finished call index outcome) := by
  cases htask : state.tasks task with
  | loaded call index raw =>
    simp only [step, htask, Option.map_eq_some_iff] at h
    obtain ⟨outcome, hanswer, rfl⟩ := h
    exact ⟨call, index, raw, outcome, rfl, hanswer, rfl⟩
  | _ => simp [step, htask] at h

theorem step_writeFile {order : AList (fun _ : Str ↦ Value)}
    (h : step serde state (.writeFile task order) = some next) :
    ∃ call index raw outcome, state.tasks task = .loaded call index raw ∧
      rewrite serde raw call = some (order.toFinmap, outcome) ∧
      ((serde.toStringPretty order = none ∧
          next = state.setTask task (.finished call index (.failed .json))) ∨
        ∃ text, serde.toStringPretty order = some text ∧
          next = { state.setTask task (.finished call index outcome) with
            file := some (encode text) }) := by
  cases htask : state.tasks task with
  | loaded call index raw =>
    simp only [step, htask, Option.bind_eq_some_iff, Option.ite_none_right_eq_some] at h
    obtain ⟨⟨updated, outcome⟩, hrewrite, rfl, hnext⟩ := h
    refine ⟨call, index, raw, outcome, rfl, hrewrite, ?_⟩
    cases htext : serde.toStringPretty order with
    | none =>
      simp only [htext, Option.some_inj] at hnext
      exact .inl ⟨rfl, hnext.symm⟩
    | some text =>
      simp only [htext, Option.some_inj] at hnext
      exact .inr ⟨text, rfl, hnext.symm⟩
  | _ => simp [step, htask] at h

theorem step_release (h : step serde state (.release task) = some next) :
    ∃ call index outcome, state.tasks task = .finished call index outcome ∧
      next = { state.setTask task .idle with
        lock := state.lock.release task call.isWrite
        returned := state.returned ++ [⟨task, index, outcome⟩] } := by
  cases htask : state.tasks task with
  | finished call index outcome =>
    exact ⟨call, index, outcome, rfl, by simpa [step, htask] using h.symm⟩
  | _ => simp [step, htask] at h

end Inversion

/-! ## The steps of one call -/

section Calls

variable {serde : SerdeJson V Value} {state next : State Task V Value}

/-- A call that does not answer from the map has something to write. -/
theorem rewrite_isSome_of_answer_eq_none {raw : HashMap Str Value}
    {order : List (Sigma fun _ : Str ↦ Value)}
    (horder : (order : Multiset _) = raw.entries) {call : Call V}
    (hanswer : answer serde raw order call = none) :
    (rewrite serde raw call).isSome = true := by
  cases call with
  | get key =>
    cases hlookup : raw.lookup key with
    | none => simp [answer, hlookup] at hanswer
    | some stored =>
      cases hvalue : serde.fromValue stored <;> simp [answer, hlookup, hvalue] at hanswer
  | has key => simp [answer] at hanswer
  | set key value =>
    cases hvalue : serde.toValue value with
    | none => simp [answer, hvalue] at hanswer
    | some stored => simp [rewrite, Update.target, hvalue]
  | delete key =>
    have hmem : key ∈ raw := by
      by_contra hmem
      simp [answer, hmem] at hanswer
    simp [rewrite, Update.target, hmem]
  | entries =>
    rw [answer, if_pos horder] at hanswer
    split at hanswer <;> simp at hanswer

/-- A call that holds the lock can take its next step, whatever the other tasks do. -/
theorem exists_step_of_holds {task : Task} {call : Call V} {index : ℕ}
    (hholds : (state.tasks task).holds = some (call, index)) :
    ∃ event, event.isInvoke = false ∧ (step serde state event).isSome = true := by
  cases htask : state.tasks task with
  | idle | waiting other => simp [htask, TaskState.holds] at hholds
  | locked other place =>
    cases hread : readMap serde state.file with
    | ok raw => exact ⟨.readFile task, rfl, by simp [step, htask, hread]⟩
    | error error => exact ⟨.readFile task, rfl, by simp [step, htask, hread]⟩
  | finished other place outcome =>
    exact ⟨.release task, rfl, by simp [step, htask]⟩
  | loaded other place raw =>
    obtain ⟨order, horder⟩ := Quotient.exists_rep raw.entries
    cases hanswer : answer serde raw order other with
    | some outcome =>
      exact ⟨.respond task order, rfl, by simp [step, htask, hanswer]⟩
    | none =>
      obtain ⟨⟨updated, outcome⟩, hrewrite⟩ :=
        Option.isSome_iff_exists.mp (rewrite_isSome_of_answer_eq_none horder hanswer)
      obtain ⟨printed, hprinted⟩ := exists_toFinmap_eq updated
      refine ⟨.writeFile task printed, rfl, ?_⟩
      cases htext : serde.toStringPretty printed <;> simp [step, htask, hrewrite, hprinted, htext]

/-- The number of steps that a call still has to take. -/
def TaskState.remaining : TaskState V Value → ℕ
  | idle => 0
  | waiting _ => 4
  | locked _ _ => 3
  | loaded _ _ _ => 2
  | finished _ _ _ => 1

/-- A step changes only its own task, which gets nearer to its end unless it begins. -/
theorem step_remaining {event : Event Task V Value} (hstep : step serde state event = some next) :
    ∃ later, next.tasks = Function.update state.tasks event.task later ∧
      later.remaining + 1 ≤
        (state.tasks event.task).remaining + if event.isInvoke then 5 else 0 := by
  cases event with
  | invoke task call =>
    obtain ⟨htask, rfl⟩ := step_invoke hstep
    exact ⟨_, rfl, by simp [Event.task, Event.isInvoke, htask, TaskState.remaining]⟩
  | acquire task =>
    obtain ⟨call, htask, -, rfl⟩ := step_acquire hstep
    exact ⟨_, rfl, by simp [Event.task, Event.isInvoke, htask, TaskState.remaining]⟩
  | readFile task =>
    obtain ⟨call, index, htask, ⟨raw, -, rfl⟩ | ⟨error, -, rfl⟩⟩ := step_readFile hstep
    · exact ⟨_, rfl, by simp [Event.task, Event.isInvoke, htask, TaskState.remaining]⟩
    · exact ⟨_, rfl, by simp [Event.task, Event.isInvoke, htask, TaskState.remaining]⟩
  | respond task order =>
    obtain ⟨call, index, raw, outcome, htask, -, rfl⟩ := step_respond hstep
    exact ⟨_, rfl, by simp [Event.task, Event.isInvoke, htask, TaskState.remaining]⟩
  | writeFile task order =>
    obtain ⟨call, index, raw, outcome, htask, -, ⟨-, rfl⟩ | ⟨text, -, rfl⟩⟩ :=
      step_writeFile hstep
    · exact ⟨_, rfl, by simp [Event.task, Event.isInvoke, htask, TaskState.remaining]⟩
    · exact ⟨_, rfl, by simp [Event.task, Event.isInvoke, htask, TaskState.remaining]⟩
  | release task =>
    obtain ⟨call, index, outcome, htask, rfl⟩ := step_release hstep
    exact ⟨_, rfl, by simp [Event.task, Event.isInvoke, htask, TaskState.remaining]⟩

/-- Each call takes at most five steps. -/
theorem countP_steps_le {events : List (Event Task V Value)} {final : State Task V Value}
    (hrun : Foundations.Runs.run (step serde) state events = some final) (task : Task) :
    events.countP (·.task = task) + (final.tasks task).remaining ≤
      5 * events.countP (fun event ↦ event.task = task && event.isInvoke) +
        (state.tasks task).remaining := by
  induction events generalizing state with
  | nil =>
    obtain rfl : state = final := by simpa using hrun
    simp
  | cons event events ih =>
    obtain ⟨next, hstep, hrest⟩ := (run_cons_eq_some (step serde)).mp hrun
    obtain ⟨later, htasks, hremaining⟩ := step_remaining hstep
    have hlater := ih hrest
    by_cases htask : event.task = task
    · subst htask
      rw [htasks, Function.update_self] at hlater
      rw [List.countP_cons_of_pos (by simp)]
      cases hinvoke : event.isInvoke with
      | true =>
        rw [hinvoke, if_pos rfl] at hremaining
        rw [List.countP_cons_of_pos (by simp [hinvoke])]
        omega
      | false =>
        rw [hinvoke, if_neg Bool.false_ne_true] at hremaining
        rw [List.countP_cons_of_neg (by simp [hinvoke])]
        omega
    · rw [htasks, Function.update_of_ne (Ne.symm htask)] at hlater
      simpa [List.countP_cons, htask] using hlater

end Calls

end SolidCommunity.SolidStorage.JsonFileStorage
