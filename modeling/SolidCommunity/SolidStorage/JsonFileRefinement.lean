import SolidCommunity.SolidStorage.JsonFileStorage

/-!
# The File Storage Refines the Memory Backend

The simulation relates the file to the memory backend that has executed the log.  A call in progress
works on the map that its predecessors in the log left behind, because a writer is alone and only
reads follow a reader.  A call changes what the file represents only by writing its own result.
-/

namespace SolidCommunity.SolidStorage.JsonFileStorage

open Foundations.FiniteMap Foundations.Runs Foundations.Text JsonFile MemoryMapStorage

variable {Task V Value : Type*}

/-! ## The simulation relation -/

/-- The raw map holds the serialised values of the memory map. -/
def Encodes (serde : SerdeJson V Value) (raw : HashMap Str Value) (memory : HashMap Str V) : Prop :=
  ∀ key, raw.lookup key = (memory.lookup key).bind serde.toValue

/-- The file reads as an encoding of the memory map. -/
def Represents (serde : SerdeJson V Value) (file : File) (memory : HashMap Str V) : Prop :=
  ∃ raw, readMap serde file = .ok raw ∧ Encodes serde raw memory

theorem represents_absent (serde : SerdeJson V Value) :
    Represents serde none (∅ : HashMap Str V) :=
  ⟨∅, rfl, fun _ ↦ by simp⟩

/-- A printed encoding represents the memory map. -/
theorem represents_printed {serde : SerdeJson V Value} {text : Str} {raw : HashMap Str Value}
    {memory : HashMap Str V} (hback : serde.fromStr text = some raw)
    (h : Encodes serde raw memory) : Represents serde (some (encode text)) memory :=
  ⟨raw, readMap_of_fromStr hback, h⟩

/-- The memory backend after the first `index` calls of the log. -/
def before (memory : HashMap Str V) (log : List (Task × Call V)) (index : ℕ) : HashMap Str V :=
  replay memory ((log.take index).map (·.2))

/-- Whether the call may still write the file. -/
def TaskState.mayWrite : TaskState V Value → Bool
  | locked call _ | loaded call _ _ => call.isWrite
  | _ => false

/-- A call in progress sees the map of its predecessors and answers like the memory backend. -/
def TaskState.Agrees (serde : SerdeJson V Value) (memory : HashMap Str V) (file : File)
    (log : List (Task × Call V)) : TaskState V Value → Prop
  | locked _ index => Represents serde file (before memory log index)
  | loaded _ index raw =>
    Represents serde file (before memory log index) ∧ Encodes serde raw (before memory log index)
  | finished call index outcome => outcome = (run (before memory log index) call).2
  | _ => True

/-- What holds of one task: the lock knows it, the log names its call and only reads follow a read,
nothing follows a write. -/
structure Sound (serde : SerdeJson V Value) (memory : HashMap Str V) (file : File)
    (lock : RwLock Task) (log : List (Task × Call V)) (task : Task) (current : TaskState V Value) :
    Prop where
  reader : task ∈ lock.readers ↔ current.mode = some false
  writer : lock.writer = some task ↔ current.mode = some true
  logged : ∀ call index, current.holds = some (call, index) → log[index]? = some (task, call)
  followers : ∀ call index, current.holds = some (call, index) →
    ∀ entry ∈ log.drop (index + 1), entry.2.isWrite = false ∧ call.isWrite = false
  agrees : current.Agrees serde memory file log

/-- The simulation relation between the storage and the memory backend that executes the log. -/
structure Refines (serde : SerdeJson V Value) (memory : HashMap Str V)
    (state : State Task V Value) : Prop where
  exclusive : state.lock.writer.isSome → state.lock.readers = ∅
  sound : ∀ task,
    Sound serde memory state.file state.lock state.log task (state.tasks task)
  file : (∀ task, (state.tasks task).mayWrite = false) →
    Represents serde state.file (replay memory (state.log.map (·.2)))
  returned : ∀ result ∈ state.returned, ∃ call,
    state.log[result.index]? = some (result.task, call) ∧
      result.outcome = (run (before memory state.log result.index) call).2
  accounted : ∀ index < state.log.length, (∃ result ∈ state.returned, result.index = index) ∨
    ∃ task call, (state.tasks task).holds = some (call, index)

/-! ## Calls on an encoded map -/

section Answers

variable {serde : SerdeJson V Value} {raw : HashMap Str Value} {memory : HashMap Str V}
  (h : Encodes serde raw memory)

include h

theorem Encodes.mem_iff (hserde : serde.RoundTrips) {key : Str} : key ∈ raw ↔ key ∈ memory := by
  rw [← Finmap.lookup_isSome, ← Finmap.lookup_isSome, h key]
  cases memory.lookup key with
  | none => simp
  | some value =>
    obtain ⟨stored, hstored, -⟩ := hserde.value value
    simp [hstored]

/-- A stored value is read back as the value of the memory map. -/
theorem Encodes.fromValue (hserde : serde.RoundTrips) {key : Str} {stored : Value}
    (hlookup : raw.lookup key = some stored) :
    ∃ value, serde.fromValue stored = some value ∧ memory.lookup key = some value := by
  obtain ⟨value, hmemory, hvalue⟩ := Option.bind_eq_some_iff.mp ((h key).symm.trans hlookup)
  obtain ⟨other, hother, hback⟩ := hserde.value value
  obtain rfl := Option.some_inj.mp (hother.symm.trans hvalue)
  exact ⟨value, hback, hmemory⟩

theorem Encodes.insert {value : V} {stored : Value} (hstored : serde.toValue value = some stored)
    (key : Str) : Encodes serde (raw.insert key stored) (memory.insert key value) := by
  intro other
  rw [lookup_insert_eq_ite, lookup_insert_eq_ite, h other]
  split
  · exact hstored.symm
  · rfl

theorem Encodes.erase (key : Str) : Encodes serde (raw.erase key) (memory.erase key) := by
  intro other
  rw [lookup_erase_eq_ite, lookup_erase_eq_ite, h other]
  split <;> rfl

/-- A call that answers without writing leaves the memory map alone and answers like it. -/
theorem run_of_answer [DecidableEq Value] (hserde : serde.RoundTrips)
    {order : List (Sigma fun _ : Str ↦ Value)} {call : Call V} {outcome : Outcome V}
    (hanswer : answer serde raw order call = some outcome) :
    run memory call = (memory, outcome) := by
  cases call with
  | get key =>
    cases hlookup : raw.lookup key with
    | none =>
      have habsent : memory.lookup key = none := by
        rw [Finmap.lookup_eq_none, ← h.mem_iff hserde, ← Finmap.lookup_eq_none, hlookup]
      simp_all [answer, MemoryMapStorage.run]
    | some stored =>
      obtain ⟨value, hvalue, hmemory⟩ := h.fromValue hserde hlookup
      simp_all [answer, MemoryMapStorage.run]
  | has key =>
    obtain rfl : Outcome.found (key ∈ raw) = outcome := Option.some_inj.mp hanswer
    simp [MemoryMapStorage.run, h.mem_iff hserde]
  | set key value =>
    obtain ⟨stored, hstored, -⟩ := hserde.value value
    simp [answer, hstored] at hanswer
  | delete key =>
    have habsent : key ∉ memory := by
      rw [← h.mem_iff hserde]
      intro hmem
      simp [answer, hmem] at hanswer
    have hraw : key ∉ raw := by rwa [h.mem_iff hserde]
    obtain rfl : Outcome.removed false = outcome := by simpa [answer, hraw] using hanswer
    simp [MemoryMapStorage.run, erase_eq_self habsent, habsent]
  | entries =>
    simp only [answer, Option.ite_none_right_eq_some] at hanswer
    obtain ⟨list, hlist, hpairs⟩ := mapM_entries (fun key stored ↦ h.fromValue hserde)
      (fun key ↦ (h.mem_iff hserde).mpr) hanswer.1
    obtain rfl : Outcome.listed list = outcome := by simpa [hlist] using hanswer.2
    simp [MemoryMapStorage.run, hpairs]

/-- The map that a call writes back encodes the memory map after the call. -/
theorem run_of_rewrite (hserde : serde.RoundTrips) {call : Call V}
    {updated : HashMap Str Value} {outcome : Outcome V}
    (hrewrite : rewrite serde raw call = some (updated, outcome)) :
    call.isWrite = true ∧ Encodes serde updated (run memory call).1 ∧
      outcome = (run memory call).2 := by
  cases call with
  | set key value =>
    obtain ⟨stored, hstored, -⟩ := hserde.value value
    obtain ⟨rfl, rfl⟩ : raw.insert key stored = updated ∧ Outcome.stored = outcome := by
      simpa [rewrite, Update.target, hstored] using hrewrite
    exact ⟨rfl, h.insert hstored key, rfl⟩
  | delete key =>
    have hmem : key ∈ raw := by
      by_contra hmem
      simp [rewrite, Update.target, hmem] at hrewrite
    obtain ⟨rfl, rfl⟩ : raw.erase key = updated ∧ Outcome.removed true = outcome := by
      simpa [rewrite, Update.target, hmem] using hrewrite
    refine ⟨rfl, h.erase key, ?_⟩
    simp [MemoryMapStorage.run, (h.mem_iff hserde).mp hmem]
  | get key | has key | entries => simp [rewrite] at hrewrite

end Answers

/-! ## Changes of one task, and the log -/

section Tasks

variable [DecidableEq Task] {state : State Task V Value} {task other : Task}
  {next : TaskState V Value}

/-- Nobody may write before a change of one task if nobody may write after it. -/
theorem mayWrite_of_setTask (htask : (state.tasks task).mayWrite = false)
    (h : ∀ other, ((state.setTask task next).tasks other).mayWrite = false) (other : Task) :
    (state.tasks other).mayWrite = false := by
  by_cases hne : other = task
  · rwa [hne]
  · rw [← State.setTask_tasks_of_ne hne]
    exact h other

/-- A place of the log stays held if the changed task keeps it. -/
theorem exists_holds_setTask {index : ℕ}
    (hkeeps : ∀ call, (state.tasks task).holds = some (call, index) →
      next.holds = some (call, index))
    (h : ∃ other call, (state.tasks other).holds = some (call, index)) :
    ∃ other call, ((state.setTask task next).tasks other).holds = some (call, index) := by
  obtain ⟨other, call, hother⟩ := h
  by_cases hne : other = task
  · subst hne
    exact ⟨other, call, by rw [State.setTask_tasks_self, hkeeps call hother]⟩
  · exact ⟨other, call, by rw [State.setTask_tasks_of_ne hne, hother]⟩

end Tasks

section Log

variable {memory : HashMap Str V} {log : List (Task × Call V)}

theorem before_append {index : ℕ} (hindex : index ≤ log.length) (entry : Task × Call V) :
    before memory (log ++ [entry]) index = before memory log index := by
  rw [before, before, List.take_append_of_le_length hindex]

theorem before_length : before memory log log.length = replay memory (log.map (·.2)) := by
  rw [before, List.take_length]

theorem before_succ {index : ℕ} {task : Task} {call : Call V}
    (hlog : log[index]? = some (task, call)) :
    before memory log (index + 1) = (run (before memory log index) call).1 := by
  simp [before, List.take_add_one, hlog]

/-- Reads at the end of the log can be left out. -/
theorem replay_log_of_reads {index : ℕ}
    (hreads : ∀ entry ∈ log.drop index, entry.2.isWrite = false) :
    replay memory (log.map (·.2)) = before memory log index := by
  have hrest : ∀ call ∈ (log.drop index).map (·.2), call.isWrite = false := by
    intro call hcall
    obtain ⟨entry, hentry, rfl⟩ := List.mem_map.mp hcall
    exact hreads entry hentry
  calc replay memory (log.map (·.2))
      = replay memory ((log.take index).map (·.2) ++ (log.drop index).map (·.2)) := by
        rw [← List.map_append, List.take_append_drop]
    _ = replay (before memory log index) ((log.drop index).map (·.2)) := replay_append _ _ _
    _ = before memory log index := replay_of_reads hrest _

theorem lt_length_of_logged {index : ℕ} {entry : Task × Call V} (hlog : log[index]? = some entry) :
    index < log.length :=
  (List.getElem?_eq_some_iff.mp hlog).1

end Log

section Invariant

variable {serde : SerdeJson V Value} {memory : HashMap Str V} {file : File} {lock : RwLock Task}
  {log : List (Task × Call V)} {task : Task} {current next : TaskState V Value}

/-- After a call that holds the lock the memory backend runs only reads. -/
theorem Sound.replay_log (h : Sound serde memory file lock log task current) {call : Call V}
    {index : ℕ} (hholds : current.holds = some (call, index)) :
    replay memory (log.map (·.2)) = (run (before memory log index) call).1 := by
  rw [← before_succ (h.logged call index hholds)]
  exact replay_log_of_reads fun entry hentry ↦ (h.followers call index hholds entry hentry).1

theorem TaskState.Agrees.append (h : current.Agrees serde memory file log)
    (hindex : ∀ call index, current.holds = some (call, index) → index ≤ log.length)
    (entry : Task × Call V) : current.Agrees serde memory file (log ++ [entry]) := by
  cases current with
  | idle | waiting call => trivial
  | locked call index =>
    rw [TaskState.Agrees, before_append (hindex call index rfl)]
    exact h
  | loaded call index raw =>
    rw [TaskState.Agrees, before_append (hindex call index rfl)]
    exact h
  | finished call index outcome =>
    rw [TaskState.Agrees, before_append (hindex call index rfl)]
    exact h

theorem Sound.agrees_append (h : Sound serde memory file lock log task current)
    (entry : Task × Call V) : current.Agrees serde memory file (log ++ [entry]) :=
  h.agrees.append (fun call index hholds ↦ (lt_length_of_logged (h.logged call index hholds)).le)
    entry

/-- A task that holds nothing agrees with every file. -/
theorem TaskState.agrees_of_mode_eq_none (h : current.mode = none) :
    current.Agrees serde memory file log := by
  cases current with
  | idle | waiting call => trivial
  | locked call index | loaded call index raw | finished call index outcome =>
    simp at h

/-- A task may move on and the file may change, as long as the task holds the same call. -/
theorem Sound.advance (h : Sound serde memory file lock log task current)
    (hholds : next.holds = current.holds) {written : File}
    (hagrees : next.Agrees serde memory written log) :
    Sound serde memory written lock log task next where
  reader := by rw [h.reader, TaskState.mode, TaskState.mode, hholds]
  writer := by rw [h.writer, TaskState.mode, TaskState.mode, hholds]
  logged := hholds ▸ h.logged
  followers := hholds ▸ h.followers
  agrees := hagrees

/-- Nobody may write while the exclusive lock is free. -/
theorem Refines.mayWrite_eq_false {state : State Task V Value} (h : Refines serde memory state)
    (hfree : state.lock.writer = none) (task : Task) : (state.tasks task).mayWrite = false := by
  by_contra hwrite
  have hmode : (state.tasks task).mode = some true := by
    cases htask : state.tasks task <;> simp_all [TaskState.mayWrite]
  exact Option.some_ne_none _ (((h.sound task).writer.mpr hmode).symm.trans hfree)

/-- While somebody writes, nobody else holds the lock. -/
theorem Refines.mode_eq_none_of_writer {state : State Task V Value} {other : Task}
    (h : Refines serde memory state) (hwriter : state.lock.writer = some task)
    (hne : other ≠ task) : (state.tasks other).mode = none := by
  cases hmode : (state.tasks other).mode with
  | none => rfl
  | some exclusive =>
    cases exclusive with
    | false =>
      have hreaders : state.lock.readers = ∅ := h.exclusive (by rw [hwriter]; rfl)
      have hmember := (h.sound other).reader.mpr hmode
      simp [hreaders] at hmember
    | true =>
      have hother := (h.sound other).writer.mpr hmode
      exact absurd (Option.some_inj.mp (hother.symm.trans hwriter)) hne

section Steps

variable [DecidableEq Task] {other : Task}

/-- Another task may take the lock and extend the log. -/
theorem Sound.acquire (h : Sound serde memory file lock log other current) (hne : other ≠ task)
    {call : Call V} (hadmits : lock.admits call.isWrite = true) :
    Sound serde memory file (lock.acquire task call.isWrite) (log ++ [(task, call)]) other
      current where
  reader := by rw [RwLock.mem_readers_acquire hne, h.reader]
  writer := by rw [RwLock.writer_acquire hne (RwLock.admits_iff.mp hadmits).1, h.writer]
  logged held index hholds := by
    have hlog := h.logged held index hholds
    rw [List.getElem?_append_left (lt_length_of_logged hlog), hlog]
  followers held index hholds entry hentry := by
    have hlog := h.logged held index hholds
    obtain ⟨hwriter, hreaders⟩ := RwLock.admits_iff.mp hadmits
    rw [List.drop_append_of_le_length (lt_length_of_logged hlog)] at hentry
    rcases List.mem_append.mp hentry with hold | hnew
    · exact h.followers held index hholds entry hold
    obtain rfl := List.mem_singleton.mp hnew
    have hheld : held.isWrite = false := by
      by_contra hwrite
      rw [Bool.not_eq_false] at hwrite
      have hmode := hwrite ▸ TaskState.mode_of_holds hholds
      exact Option.some_ne_none _ ((h.writer.mpr hmode).symm.trans hwriter)
    refine ⟨?_, hheld⟩
    by_contra hwrite
    have hmember := h.reader.mpr (hheld ▸ TaskState.mode_of_holds hholds)
    simp [hreaders (by simpa using hwrite)] at hmember
  agrees := h.agrees_append _

/-- A task that has just taken the lock sees what the whole log left behind. -/
theorem Sound.acquired {call : Call V} (hadmits : lock.admits call.isWrite = true)
    (hrepresents : Represents serde file (replay memory (log.map (·.2)))) :
    Sound serde memory file (lock.acquire task call.isWrite) (log ++ [(task, call)]) task
      (.locked call log.length) := by
  obtain ⟨hwriter, hreaders⟩ := RwLock.admits_iff.mp hadmits
  refine ⟨?_, ?_, ?_, ?_, ?_⟩
  · cases hwrite : call.isWrite
    · simp [RwLock.acquire, hwrite]
    · simp [RwLock.acquire, hwrite, hreaders hwrite]
  · cases hwrite : call.isWrite
    · simp [RwLock.acquire, hwrite, hwriter]
    · simp [RwLock.acquire, hwrite]
  · rintro held index hholds
    obtain ⟨rfl, rfl⟩ := Prod.mk.inj (Option.some_inj.mp hholds)
    exact List.getElem?_concat_length
  · rintro held index hholds entry hentry
    obtain ⟨rfl, rfl⟩ := Prod.mk.inj (Option.some_inj.mp hholds)
    simp at hentry
  · rw [TaskState.Agrees, before_append le_rfl, before_length]
    exact hrepresents

/-- Another task may give the lock back. -/
theorem Sound.release (h : Sound serde memory file lock log other current) (hne : other ≠ task)
    {exclusive : Bool} (hheld : exclusive = true → lock.writer = some task) :
    Sound serde memory file (lock.release task exclusive) log other current where
  reader := by rw [RwLock.mem_readers_release hne, h.reader]
  writer := by rw [RwLock.writer_release hne hheld, h.writer]
  logged := h.logged
  followers := h.followers
  agrees := h.agrees

variable {state : State Task V Value}

theorem Refines.advance (h : Refines serde memory state)
    (hholds : next.holds = (state.tasks task).holds)
    (hagrees : next.Agrees serde memory state.file state.log)
    (hfile : next.mayWrite = (state.tasks task).mayWrite ∨
      Represents serde state.file (replay memory (state.log.map (·.2)))) :
    Refines serde memory (state.setTask task next) where
  exclusive := h.exclusive
  sound := (Function.forall_update_iff _ _).mpr
    ⟨(h.sound task).advance hholds hagrees, fun other _ ↦ h.sound other⟩
  file hidle := by
    rcases hfile with hsame | hrepresents
    · refine h.file (mayWrite_of_setTask ?_ hidle)
      have htask := hidle task
      rwa [State.setTask_tasks_self, hsame] at htask
    · exact hrepresents
  returned := h.returned
  accounted index hindex :=
    (h.accounted index hindex).imp_right (exists_holds_setTask fun _ hcall ↦ hholds.trans hcall)

theorem Refines.acquire (h : Refines serde memory state) {call : Call V}
    (hwaiting : state.tasks task = .waiting call)
    (hadmits : state.lock.admits call.isWrite = true) :
    Refines serde memory { state.setTask task (.locked call state.log.length) with
      lock := state.lock.acquire task call.isWrite
      log := state.log ++ [(task, call)] } := by
  obtain ⟨hwriter, hreaders⟩ := RwLock.admits_iff.mp hadmits
  have hrepresents := h.file (h.mayWrite_eq_false hwriter)
  refine ⟨?_, (Function.forall_update_iff _ _).mpr ⟨.acquired hadmits hrepresents,
    fun other hne ↦ (h.sound other).acquire hne hadmits⟩, ?_, ?_, ?_⟩
  · intro hsome
    cases hwrite : call.isWrite
    · simp [RwLock.acquire, hwrite, hwriter] at hsome
    · exact hreaders hwrite
  · intro hidle
    have hread : call.isWrite = false := by
      simpa [State.setTask, TaskState.mayWrite] using hidle task
    rw [List.map_append, List.map_singleton, replay_concat, run_of_not_isWrite hread]
    exact hrepresents
  · intro result hresult
    obtain ⟨held, hlog, houtcome⟩ := h.returned result hresult
    have hindex := lt_length_of_logged hlog
    refine ⟨held, ?_, ?_⟩
    · rw [List.getElem?_append_left hindex, hlog]
    · rw [before_append hindex.le, houtcome]
  · intro index hindex
    rw [List.length_append, List.length_singleton, Nat.lt_succ_iff_lt_or_eq] at hindex
    rcases hindex with hold | rfl
    · refine (h.accounted index hold).imp_right (exists_holds_setTask fun held hheld ↦ ?_)
      simp [hwaiting, TaskState.holds] at hheld
    · exact .inr ⟨task, call, by simp [State.setTask, TaskState.holds]⟩

/-- A writer replaces the file by its own result; nobody else holds the lock. -/
theorem Refines.write (h : Refines serde memory state) {call : Call V} {index : ℕ}
    {raw : HashMap Str Value} (hloaded : state.tasks task = .loaded call index raw)
    (hwrite : call.isWrite = true) {outcome : Outcome V}
    (houtcome : outcome = (run (before memory state.log index) call).2)
    (hrepresents : Represents serde file (run (before memory state.log index) call).1) :
    Refines serde memory { state.setTask task (.finished call index outcome) with
      file := file } := by
  have hholds : (state.tasks task).holds = some (call, index) := by rw [hloaded]; rfl
  have hwriter : state.lock.writer = some task :=
    (h.sound task).writer.mpr (hwrite ▸ TaskState.mode_of_holds hholds)
  refine ⟨h.exclusive, (Function.forall_update_iff _ _).mpr
    ⟨(h.sound task).advance (hloaded ▸ rfl) houtcome, fun other hne ↦ (h.sound other).advance rfl
      (TaskState.agrees_of_mode_eq_none ?_)⟩, fun _ ↦ ?_, h.returned, fun place hplace ↦ ?_⟩
  · exact h.mode_eq_none_of_writer hwriter hne
  · exact ((h.sound task).replay_log hholds).symm ▸ hrepresents
  · refine (h.accounted place hplace).imp_right (exists_holds_setTask fun other hother ↦ ?_)
    exact hholds.symm.trans hother

theorem Refines.release (h : Refines serde memory state) {call : Call V} {index : ℕ}
    {outcome : Outcome V} (hfinished : state.tasks task = .finished call index outcome) :
    Refines serde memory { state.setTask task .idle with
      lock := state.lock.release task call.isWrite
      returned := state.returned ++ [⟨task, index, outcome⟩] } := by
  have hsound := h.sound task
  have hholds : (state.tasks task).holds = some (call, index) := by rw [hfinished]; rfl
  have hmode := TaskState.mode_of_holds hholds
  refine ⟨?_, (Function.forall_update_iff _ _).mpr ⟨⟨?_, ?_, nofun, nofun, trivial⟩,
    fun other hne ↦ (h.sound other).release hne fun hwrite ↦ hsound.writer.mpr (hwrite ▸ hmode)⟩,
    fun hidle ↦ h.file (mayWrite_of_setTask (by rw [hfinished]; rfl) hidle), ?_, ?_⟩
  · intro hsome
    cases hwrite : call.isWrite
    · rw [hwrite] at hsome
      simp [RwLock.release, h.exclusive hsome]
    · simp [RwLock.release, hwrite] at hsome
  · cases hwrite : call.isWrite
    · simp [RwLock.release]
    · simp [RwLock.release, hsound.reader, hmode, hwrite]
  · cases hwrite : call.isWrite
    · simp [RwLock.release, hsound.writer, hmode, hwrite]
    · simp [RwLock.release]
  · intro result hresult
    rcases List.mem_append.mp hresult with hold | hnew
    · exact h.returned result hold
    · obtain rfl := List.mem_singleton.mp hnew
      have hagrees := hsound.agrees
      rw [hfinished] at hagrees
      exact ⟨call, hsound.logged call index hholds, hagrees⟩
  · intro place hplace
    rcases h.accounted place hplace with ⟨result, hresult, hindex⟩ | hheld
    · exact .inl ⟨result, List.mem_append_left _ hresult, hindex⟩
    by_cases hsame : place = index
    · exact .inl ⟨⟨task, index, outcome⟩, by simp, hsame.symm⟩
    · refine .inr (exists_holds_setTask (fun other hother ↦ ?_) hheld)
      have hpair := Option.some_inj.mp (hholds.symm.trans hother)
      exact absurd (Prod.mk.inj hpair).2.symm hsame

end Steps

end Invariant

/-! ## Runs -/

section Runs

variable {serde : SerdeJson V Value} {memory : HashMap Str V}

theorem refines_initial {file : File} (h : Represents serde file memory) :
    Refines serde memory (State.initial Task V Value file) where
  exclusive := nofun
  sound task := ⟨by simp [State.initial], by simp [State.initial], nofun, nofun, trivial⟩
  file _ := h
  returned := nofun
  accounted := nofun

variable [DecidableEq Task] [DecidableEq Value] {state next : State Task V Value}

/-- Every step keeps the simulation relation. -/
theorem Refines.of_step (hserde : serde.RoundTrips) (h : Refines serde memory state)
    {event : Event Task V Value} (hstep : step serde state event = some next) :
    Refines serde memory next := by
  cases event with
  | invoke task call =>
    obtain ⟨htask, rfl⟩ := step_invoke hstep
    exact h.advance (by rw [htask]; rfl) trivial (.inl (by rw [htask]; rfl))
  | acquire task =>
    obtain ⟨call, htask, hadmits, rfl⟩ := step_acquire hstep
    exact h.acquire htask hadmits
  | readFile task =>
    obtain ⟨call, index, htask, hread⟩ := step_readFile hstep
    obtain ⟨raw, hraw, hencodes⟩ : Represents serde state.file (before memory state.log index) := by
      simpa [htask, TaskState.Agrees] using (h.sound task).agrees
    rcases hread with ⟨other, hother, rfl⟩ | ⟨error, herror, rfl⟩
    · obtain rfl := Except.ok.inj (hraw.symm.trans hother)
      exact h.advance (by rw [htask]; rfl) ⟨⟨raw, hraw, hencodes⟩, hencodes⟩
        (.inl (by rw [htask]; rfl))
    · exact absurd (hraw.symm.trans herror) nofun
  | respond task order =>
    obtain ⟨call, index, raw, outcome, htask, hanswer, rfl⟩ := step_respond hstep
    obtain ⟨hrepresents, hencodes⟩ : Represents serde state.file (before memory state.log index) ∧
        Encodes serde raw (before memory state.log index) := by
      simpa [htask, TaskState.Agrees] using (h.sound task).agrees
    have hrun := run_of_answer hencodes hserde hanswer
    have hholds : (state.tasks task).holds = some (call, index) := by rw [htask]; rfl
    refine h.advance (by rw [htask]; rfl) (congrArg Prod.snd hrun).symm (.inr ?_)
    rwa [(h.sound task).replay_log hholds, hrun]
  | writeFile task order =>
    obtain ⟨call, index, raw, outcome, htask, hrewrite, hwrite⟩ := step_writeFile hstep
    have hencodes : Encodes serde raw (before memory state.log index) := by
      have hagrees := (h.sound task).agrees
      rw [htask] at hagrees
      exact hagrees.2
    obtain ⟨hkind, hupdated, houtcome⟩ := run_of_rewrite hencodes hserde hrewrite
    obtain ⟨text, htext, hback⟩ := hserde.map order
    rcases hwrite with ⟨hnone, -⟩ | ⟨other, hother, rfl⟩
    · exact absurd (hnone.symm.trans htext) nofun
    · obtain rfl := Option.some_inj.mp (htext.symm.trans hother)
      exact h.write htask hkind houtcome (represents_printed hback hupdated)
  | release task =>
    obtain ⟨call, index, outcome, htask, rfl⟩ := step_release hstep
    exact h.release htask

/-- The tasks never block each other for good: some unfinished call can take a step. -/
theorem Refines.exists_step (h : Refines serde memory state) {task : Task}
    (hbusy : state.tasks task ≠ .idle) :
    ∃ event, event.isInvoke = false ∧ (step serde state event).isSome = true := by
  have hmode {holder : Task} {exclusive : Bool}
      (hholder : (state.tasks holder).mode = some exclusive) :
      ∃ event, event.isInvoke = false ∧ (step serde state event).isSome = true := by
    obtain ⟨⟨call, index⟩, hholds, -⟩ := Option.map_eq_some_iff.mp hholder
    exact exists_step_of_holds hholds
  cases htask : state.tasks task with
  | idle => exact absurd htask hbusy
  | locked call index | loaded call index raw | finished call index outcome =>
    exact exists_step_of_holds (by rw [htask]; rfl)
  | waiting call =>
    by_cases hadmits : state.lock.admits call.isWrite = true
    · exact ⟨.acquire task, rfl, by simp [step, htask, hadmits]⟩
    cases hwriter : state.lock.writer with
    | some holder => exact hmode ((h.sound holder).writer.mp hwriter)
    | none =>
      have hreaders : state.lock.readers ≠ ∅ := by
        intro hempty
        exact hadmits (RwLock.admits_iff.mpr ⟨hwriter, fun _ ↦ hempty⟩)
      obtain ⟨holder, hholder⟩ := Finset.nonempty_iff_ne_empty.mpr hreaders
      exact hmode ((h.sound holder).reader.mp hholder)

/-- Every call returns what the memory backend returns when the calls are executed one at a time in
the order in which they took the lock, and the file holds its map whenever nobody is writing. -/
theorem refines_memory (hserde : serde.RoundTrips) {file : File}
    (hfile : Represents serde file memory) {events : List (Event Task V Value)}
    {final : State Task V Value}
    (hrun : Foundations.Runs.run (step serde) (State.initial Task V Value file) events =
      some final) :
    (∀ result ∈ final.returned, ∃ call, final.log[result.index]? = some (result.task, call) ∧
      result.outcome = (run (before memory final.log result.index) call).2) ∧
    (final.lock.writer = none →
      Represents serde final.file (replay memory (final.log.map (·.2)))) ∧
    ((∀ task, final.tasks task = .idle) →
      ∀ index < final.log.length, ∃ result ∈ final.returned, result.index = index) ∧
    ((∃ task, final.tasks task ≠ .idle) →
      ∃ event, event.isInvoke = false ∧ (step serde final event).isSome = true) ∧
    ∀ task, events.countP (·.task = task) ≤
      5 * events.countP (fun event ↦ event.task = task && event.isInvoke) := by
  have h : Refines serde memory final := invariant_of_run (step serde) (Refines serde memory)
    (fun _ _ _ hinv hstep ↦ hinv.of_step hserde hstep) (refines_initial hfile) hrun
  refine ⟨h.returned, fun hfree ↦ h.file (h.mayWrite_eq_false hfree), fun hidle index hindex ↦ ?_,
    fun ⟨task, hbusy⟩ ↦ h.exists_step hbusy, fun task ↦ ?_⟩
  · rcases h.accounted index hindex with hreturned | ⟨task, call, hholds⟩
    · exact hreturned
    · rw [hidle task] at hholds
      exact absurd hholds nofun
  · have hcount := countP_steps_le hrun task
    simp only [State.initial, TaskState.remaining] at hcount
    omega

/-- A writer waits for a reader of the missing file and then creates it. -/
theorem refines_memory_waiting_writer :
    ∃ (events : List (Event Bool Str Str)) (final : State Bool Str Str),
      Foundations.Runs.run (step SerdeJson.strings) (.initial Bool Str Str none) events =
        some final ∧
      final.log = [(false, .get ['k']), (true, .set ['k'] ['v'])] ∧
      final.returned.map (·.index) = [0, 1] ∧
      (∀ result ∈ final.returned, ∃ call, final.log[result.index]? = some (result.task, call) ∧
        result.outcome = (run (before ∅ final.log result.index) call).2) ∧
      Represents SerdeJson.strings final.file (replay ∅ (final.log.map (·.2))) := by
  obtain ⟨events, final, hrun, hlog, hreturned, hfree⟩ :
      ∃ (events : List (Event Bool Str Str)) (final : State Bool Str Str),
        Foundations.Runs.run (step SerdeJson.strings) (.initial Bool Str Str none) events =
          some final ∧
        final.log = [(false, .get ['k']), (true, .set ['k'] ['v'])] ∧
        final.returned.map (·.index) = [0, 1] ∧ final.lock.writer = none :=
    ⟨[.invoke false (.get ['k']), .invoke true (.set ['k'] ['v']), .acquire false, .readFile false,
      .respond false [], .release false, .acquire true, .readFile true,
      .writeFile true (.singleton ['k'] ['v']), .release true], _, rfl, rfl, rfl, rfl⟩
  have h := refines_memory SerdeJson.strings_roundTrips (represents_absent _) hrun
  exact ⟨events, final, hrun, hlog, hreturned, h.1, h.2.1 hfree⟩

end Runs

end SolidCommunity.SolidStorage.JsonFileStorage
