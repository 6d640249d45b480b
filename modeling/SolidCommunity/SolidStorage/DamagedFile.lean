import SolidCommunity.SolidStorage.JsonFileStorage

/-!
# Damaged Files

An overwrite that is cut short can leave a file that does not decode.  Every call reads the file
before it does anything else, so from then on no call gets as far as a write: the storage never
mends the file, but it does not touch what is left of it either, and every call reports the damage.
-/

namespace SolidCommunity.SolidStorage.JsonFileStorage

open Foundations.FiniteMap Foundations.Runs Foundations.Text JsonFile

variable {Task V Value : Type*}

/-- A call that has not read the file, or has failed with the error. -/
def Fails (error : StorageError) : TaskState V Value → Prop
  | .idle | .waiting _ | .locked _ _ => True
  | .loaded _ _ _ => False
  | .finished _ _ outcome => outcome = .failed error

/-- The file is as it was, and every call has failed that has read it. -/
structure Unmended (file : File) (error : StorageError) (state : State Task V Value) : Prop where
  file_eq : state.file = file
  tasks : ∀ task, Fails error (state.tasks task)
  returned : ∀ result ∈ state.returned, result.outcome = .failed error

section Steps

variable {file : File} {error : StorageError} {state next : State Task V Value} {task : Task}

theorem unmended_initial (file : File) (error : StorageError) :
    Unmended file error (.initial Task V Value file) where
  file_eq := rfl
  tasks _ := trivial
  returned result hresult := by simp [State.initial] at hresult

theorem Unmended.not_loaded (h : Unmended file error state) {call : Call V} {index : ℕ}
    {raw : HashMap Str Value} : state.tasks task ≠ .loaded call index raw := by
  intro hloaded
  have hfails := h.tasks task
  rw [hloaded] at hfails
  exact hfails

variable [DecidableEq Task]

/-- A call that moves on without having read the map. -/
theorem Unmended.setTask (h : Unmended file error state) (task : Task)
    {current : TaskState V Value} (hcurrent : Fails error current) :
    Unmended file error (state.setTask task current) where
  file_eq := h.file_eq
  tasks := (Function.forall_update_iff state.tasks fun _ current ↦ Fails error current).mpr
    ⟨hcurrent, fun other _ ↦ h.tasks other⟩
  returned := h.returned

variable [DecidableEq Value] {serde : SerdeJson V Value}

theorem Unmended.step (hdamaged : readMap serde file = .error error)
    (h : Unmended file error state) {event : Event Task V Value}
    (hstep : JsonFileStorage.step serde state event = some next) : Unmended file error next := by
  cases event with
  | invoke task call =>
    obtain ⟨-, rfl⟩ := step_invoke hstep
    exact h.setTask task trivial
  | acquire task =>
    obtain ⟨call, -, -, rfl⟩ := step_acquire hstep
    have hlocked : Unmended file error (state.setTask task (.locked call state.log.length)) :=
      h.setTask task trivial
    exact ⟨hlocked.file_eq, hlocked.tasks, hlocked.returned⟩
  | readFile task =>
    obtain ⟨call, index, -, ⟨raw, hread, -⟩ | ⟨other, hread, rfl⟩⟩ := step_readFile hstep
    · rw [h.file_eq, hdamaged] at hread
      simp at hread
    · rw [h.file_eq, hdamaged] at hread
      exact h.setTask task (congrArg Outcome.failed (Except.error.inj hread).symm)
  | respond task order =>
    obtain ⟨call, index, raw, outcome, hloaded, -, -⟩ := step_respond hstep
    exact absurd hloaded h.not_loaded
  | writeFile task order =>
    obtain ⟨call, index, raw, outcome, hloaded, -, -⟩ := step_writeFile hstep
    exact absurd hloaded h.not_loaded
  | release task =>
    obtain ⟨call, index, outcome, hfinished, rfl⟩ := step_release hstep
    have hidle : Unmended file error (state.setTask task .idle) := h.setTask task trivial
    refine ⟨hidle.file_eq, hidle.tasks, ?_⟩
    have hfails := h.tasks task
    rw [hfinished] at hfails
    intro result hresult
    rcases List.mem_append.mp hresult with hearlier | hlast
    · exact h.returned result hearlier
    · obtain rfl := List.mem_singleton.mp hlast
      exact hfails

/-- Damage lasts: in every interleaving of any calls, a file that does not decode is never written,
and every call that returns fails with the error of the damage. -/
theorem damage_lasts (hdamaged : readMap serde file = .error error)
    (hreachable : Reachable (JsonFileStorage.step serde) (.initial Task V Value file) state) :
    state.file = file ∧ ∀ result ∈ state.returned, result.outcome = .failed error := by
  have h : Unmended file error state :=
    invariant_of_reachable _ (Unmended file error) (fun _ _ _ h hstep ↦ h.step hdamaged hstep)
      (unmended_initial file error) hreachable
  exact ⟨h.file_eq, h.returned⟩

end Steps

/-- A write that waits while a deletion is served. -/
def setAndDelete : List (Event Bool Str Str) :=
  [.invoke true (.set ['k'] ['v']), .invoke false (.delete ['k']), .acquire false,
    .readFile false, .release false, .acquire true, .readFile true, .release true]

/-- A file that is empty because an overwrite was cut short after the truncation: a later
deletion and a write fail and leave it empty. -/
theorem damage_lasts_truncated :
    ∃ (error : StorageError) (final : State Bool Str Str),
      run (step SerdeJson.strings) (.initial Bool Str Str (some [])) setAndDelete = some final ∧
      final.returned.length = 2 ∧ final.file = some [] ∧
      ∀ result ∈ final.returned, result.outcome = .failed error := by
  have htext : SerdeJson.strings.toStringPretty (singleton ['k'] ['u']) =
      some (SerdeJson.printObject (singleton ['k'] ['u']).entries) := rfl
  obtain ⟨error, herror⟩ := readMap_truncated SerdeJson.strings_readsBack htext
    List.nil_prefix (by decide)
  refine ⟨error, ?_⟩
  have hrun : ∃ final, run (step SerdeJson.strings) (.initial Bool Str Str (some []))
      setAndDelete = some final ∧ final.returned.length = 2 := by
    simp [setAndDelete, run, step, State.initial, State.setTask, herror, RwLock.admits,
      RwLock.acquire, RwLock.release, Call.isWrite]
  obtain ⟨final, hrun, hlength⟩ := hrun
  exact ⟨final, hrun, hlength, damage_lasts herror ⟨_, hrun⟩⟩

end SolidCommunity.SolidStorage.JsonFileStorage
