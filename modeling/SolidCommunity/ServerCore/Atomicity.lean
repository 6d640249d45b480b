import Mathlib.Data.List.Permutation
import SolidCommunity.ServerCore.ConcurrentStore

/-!
# Atomicity of the Store Operations

A history has a sequential explanation when its calls can be ordered, each client's calls in its own
program order, so that executing them one at a time gives every result and the final store.  A put
is not atomic: between its sections another client can see its new containers without its entry.

The runs in which nobody interferes with the containers of a put in flight do have an explanation,
and it is the completion order itself.  The simulation relates the concurrent store to the
sequential one that has executed the completed calls: they differ only in containers that a put in
flight has already created.
-/

namespace SolidCommunity.ServerCore.Atomicity

open ConcurrentStore Foundations.FiniteMap Foundations.Runs Foundations.Text LdpStore

variable {Client : Type*} [DecidableEq Client]

/-- Execute the calls one at a time, requiring the recorded results. -/
def replay (store : LdpStore) : List (Completed Client) → Option LdpStore
  | [] => some store
  | completed :: rest =>
    if (completed.call.run store).2 = completed.outcome then
      replay (completed.call.run store).1 rest
    else none

/-- A sequential order of the calls of a history that explains its results and final store. -/
structure SequentialOrder (start : LdpStore) (history : List (Completed Client))
    (final : LdpStore) (order : List (Completed Client)) : Prop where
  perm : order.Perm history
  programOrder : ∀ client,
    order.filter (·.client = client) = history.filter (·.client = client)
  replays : replay start order = some final

/-- The history of a configuration has a sequential explanation. -/
def Atomic (start : LdpStore) (configuration : Configuration Client) : Prop :=
  ∃ order, SequentialOrder start configuration.history configuration.store order

/-- Whether a history has a sequential explanation can be decided by trying every order. -/
theorem atomic_iff_exists_permutation {start : LdpStore} {configuration : Configuration Client} :
    Atomic start configuration ↔
      ∃ order ∈ configuration.history.permutations',
        (∀ client, order.filter (·.client = client) =
          configuration.history.filter (·.client = client)) ∧
        replay start order = some configuration.store := by
  constructor
  · rintro ⟨order, hperm, hprogram, hreplays⟩
    exact ⟨order, List.mem_permutations'.mpr hperm, hprogram, hreplays⟩
  · rintro ⟨order, hmem, hprogram, hreplays⟩
    exact ⟨order, List.mem_permutations'.mp hmem, hprogram, hreplays⟩

instance [Fintype Client] (start : LdpStore) (configuration : Configuration Client) :
    Decidable (Atomic start configuration) :=
  decidable_of_iff _ atomic_iff_exists_permutation.symm

/-- No other client's put in flight has created the key. -/
def Unobserved (configuration : Configuration Client) (client : Client) (target : Str) : Prop :=
  ∀ other, other ≠ client → ∀ put ∈ configuration.pending other, target ∉ put.createdAncestors

/-- The step does not read or overwrite a container that a put in flight has just created, and does
not delete a container that a put in flight relies on. -/
def Undisturbed (configuration : Configuration Client) : Action Client → Prop
  | .enter _ (.put _ _ _) => True
  | .enter client (.get path) => Unobserved configuration client (key path)
  | .enter client (.existsAt path) => Unobserved configuration client (key path)
  | .enter client (.delete path) =>
    ∀ other, other ≠ client → ∀ put ∈ configuration.pending other,
      key path ∉ ancestorKeys (key put.path)
  | .insert client =>
    ∀ put ∈ configuration.pending client, Unobserved configuration client (key put.path)

instance [Fintype Client] (configuration : Configuration Client) (client : Client)
    (target : Str) : Decidable (Unobserved configuration client target) :=
  inferInstanceAs (Decidable (∀ other, other ≠ client → ∀ put ∈ configuration.pending other,
    target ∉ put.createdAncestors))

instance [Fintype Client] (configuration : Configuration Client) :
    ∀ action, Decidable (Undisturbed configuration action)
  | .enter _ (.put _ _ _) => inferInstanceAs (Decidable True)
  | .enter client (.get path) | .enter client (.existsAt path) =>
    inferInstanceAs (Decidable (Unobserved configuration client (key path)))
  | .enter client (.delete path) =>
    inferInstanceAs (Decidable (∀ other, other ≠ client → ∀ put ∈ configuration.pending other,
      key path ∉ ancestorKeys (key put.path)))
  | .insert client =>
    inferInstanceAs (Decidable (∀ put ∈ configuration.pending client,
      Unobserved configuration client (key put.path)))

/-! ## The simulation -/

/-- The concurrent store against the sequential store that has executed the completed calls. -/
structure Simulates (start : LdpStore) (configuration : Configuration Client)
    (sequential : LdpStore) : Prop where
  replays : replay start configuration.history = some sequential
  agrees : ∀ target, configuration.store.lookup target = sequential.lookup target ∨
    (sequential.lookup target = none ∧
      configuration.store.lookup target = some emptyContainer ∧
      ∃ client put, configuration.pending client = some put ∧ target ∈ put.createdAncestors)
  walked : ∀ client put, configuration.pending client = some put →
    ∀ target ∈ put.createdAncestors, target ∈ ancestorKeys (key put.path)
  ensured : ∀ client put, configuration.pending client = some put →
    ∀ target ∈ ancestorKeys (key put.path), target ∈ configuration.store

omit [DecidableEq Client] in
theorem replay_concat {start middle : LdpStore} {history : List (Completed Client)}
    (h : replay start history = some middle) (completed : Completed Client)
    (houtcome : (completed.call.run middle).2 = completed.outcome) :
    replay start (history ++ [completed]) = some (completed.call.run middle).1 := by
  induction history generalizing start with
  | nil =>
    obtain rfl : start = middle := by simpa [replay] using h
    simp [replay, houtcome]
  | cons first rest ih =>
    rw [replay] at h
    split at h
    · next hfirst =>
      rw [List.cons_append, replay, if_pos hfirst]
      exact ih h
    · simp at h

variable {start sequential : LdpStore} {configuration : Configuration Client}

omit [DecidableEq Client] in
/-- A key that no put in flight has created is stored alike on both sides. -/
theorem Simulates.lookup_eq (h : Simulates start configuration sequential) {target : Str}
    (hunobserved : ∀ client put, configuration.pending client = some put →
      target ∉ put.createdAncestors) :
    configuration.store.lookup target = sequential.lookup target := by
  rcases h.agrees target with heq | ⟨-, -, client, put, hput, hmem⟩
  · exact heq
  · exact absurd hmem (hunobserved client put hput)

omit [DecidableEq Client] in
theorem mem_iff_of_lookup_eq {first second : LdpStore} {target : Str}
    (h : first.lookup target = second.lookup target) : target ∈ first ↔ target ∈ second := by
  rw [← Finmap.lookup_isSome, ← Finmap.lookup_isSome, h]

/-- Entering a put changes nothing on the sequential side. -/
theorem Simulates.enterPut (h : Simulates start configuration sequential) {client : Client}
    (hidle : configuration.pending client = none) (path : Str) (body : Bytes) (contentType : Str) :
    Simulates start (ConcurrentStore.enterPut configuration client path body contentType)
      sequential where
  replays := h.replays
  agrees target := by
    have hstore : (ConcurrentStore.enterPut configuration client path body contentType).store =
        ensureAncestors configuration.store (key path) := rfl
    rw [hstore]
    rcases h.agrees target with heq | ⟨hnone, hcontainer, other, put, hput, hmem⟩
    · by_cases hstored : target ∈ configuration.store
      · left
        rw [ensureAncestors_eq, lookup_orInsertAll_of_mem hstored, heq]
      · have hlookup := Finmap.lookup_eq_none.mpr hstored
        by_cases hwalk : target ∈ ancestorKeys (key path)
        · right
          refine ⟨heq.symm.trans hlookup, ?_, client, _, by rw [pending_enterPut, if_pos rfl], ?_⟩
          · rw [lookup_ensureAncestors, hlookup, if_pos hwalk, Option.none_or]
          · exact List.mem_filter.mpr ⟨hwalk, by simpa using hstored⟩
        · left
          rw [lookup_ensureAncestors, if_neg hwalk, Option.or_none, heq]
    · right
      have hne : other ≠ client := by
        rintro rfl
        simp [hidle] at hput
      refine ⟨hnone, ?_, other, put, ?_, hmem⟩
      · rw [lookup_ensureAncestors, hcontainer, Option.some_or]
      · rw [pending_enterPut, if_neg hne, hput]
  walked other put hput target hmem := by
    rw [pending_enterPut] at hput
    split at hput
    · obtain rfl := Option.some_inj.mp hput
      exact (List.mem_filter.mp hmem).1
    · exact h.walked other put hput target hmem
  ensured other put hput target hmem := by
    rw [pending_enterPut] at hput
    split at hput
    · obtain rfl := Option.some_inj.mp hput
      exact mem_ensureAncestors.mpr (.inr hmem)
    · exact mem_ensureAncestors.mpr (.inl (h.ensured other put hput target hmem))

omit [DecidableEq Client] in
/-- An undisturbed call with one section has the same effect and result on both sides. -/
theorem Simulates.execute (h : Simulates start configuration sequential) {client : Client}
    {call : Call} (hidle : configuration.pending client = none) (hcall : call.isPut = false)
    (hundisturbed : Undisturbed configuration (.enter client call)) :
    Simulates start (ConcurrentStore.execute configuration client call)
      (call.run sequential).1 := by
  have hothers (other : Client) (put : PendingPut) (hput : configuration.pending other = some put) :
      other ≠ client := by
    rintro rfl
    simp [hidle] at hput
  cases call with
  | put path body contentType => simp [Call.isPut] at hcall
  | get path =>
    have hlookup := h.lookup_eq fun other put hput ↦
      hundisturbed other (hothers other put hput) put hput
    refine ⟨replay_concat h.replays _ ?_, h.agrees, h.walked, h.ensured⟩
    simp only [Call.run, LdpStore.get, hlookup]
  | existsAt path =>
    have hlookup := h.lookup_eq fun other put hput ↦
      hundisturbed other (hothers other put hput) put hput
    refine ⟨replay_concat h.replays _ ?_, h.agrees, h.walked, h.ensured⟩
    simp only [Call.run, LdpStore.existsAt, mem_iff_of_lookup_eq hlookup]
  | delete path =>
    have hlookup := h.lookup_eq fun other put hput hmem ↦
      hundisturbed other (hothers other put hput) put hput (h.walked other put hput _ hmem)
    refine ⟨replay_concat h.replays _ ?_, fun target ↦ ?_, h.walked, ?_⟩
    · simp only [Call.run, LdpStore.delete, mem_iff_of_lookup_eq hlookup]
    · simp only [ConcurrentStore.execute, Call.run, lookup_delete]
      by_cases htarget : target = key path
      · simp [htarget]
      · simpa [htarget] using h.agrees target
    · intro other put hput target hmem
      refine mem_delete.mpr ⟨?_, h.ensured other put hput target hmem⟩
      rintro rfl
      exact hundisturbed other (hothers other put hput) put hput hmem

/-- An undisturbed second section completes the whole put on the sequential side. -/
theorem Simulates.finishPut (h : Simulates start configuration sequential) {client : Client}
    {put : PendingPut} (hput : configuration.pending client = some put)
    (hundisturbed : Undisturbed configuration (.insert client)) :
    Simulates start (ConcurrentStore.finishPut configuration client put)
      (LdpStore.put sequential put.path put.body put.contentType).1 := by
  have hunobserved := hundisturbed put hput
  -- The key of the put is its own ancestor only at the root, where both sides have it.
  have hpresent : key put.path ∈ configuration.store ↔
      key put.path ∈ ensureAncestors sequential (key put.path) := by
    rw [mem_ensureAncestors]
    by_cases hwalk : key put.path ∈ ancestorKeys (key put.path)
    · exact iff_of_true (h.ensured client put hput _ hwalk) (.inr hwalk)
    · have hlookup : configuration.store.lookup (key put.path) =
          sequential.lookup (key put.path) := h.lookup_eq fun other otherPut hother hmem ↦ by
        by_cases hsame : other = client
        · subst hsame
          obtain rfl := Option.some_inj.mp (hput.symm.trans hother)
          exact hwalk (h.walked other put hput _ hmem)
        · exact hunobserved other hsame otherPut hother hmem
      rw [mem_iff_of_lookup_eq hlookup]
      simp [hwalk]
  refine ⟨replay_concat h.replays _ ?_, fun target ↦ ?_, ?_, ?_⟩
  · simp only [Call.run, LdpStore.put, insertEntry, hpresent]
  · simp only [ConcurrentStore.finishPut, lookup_insertEntry, lookup_put]
    by_cases htarget : target = key put.path
    · simp [htarget]
    rw [if_neg htarget, if_neg htarget]
    rcases h.agrees target with heq | ⟨hnone, hcontainer, other, otherPut, hother, hmem⟩
    · left
      by_cases hwalk : target ∈ ancestorKeys (key put.path)
      · have hstored := h.ensured client put hput target hwalk
        rw [ensureAncestors_eq,
          lookup_orInsertAll_of_mem ((mem_iff_of_lookup_eq heq).mp hstored), heq]
      · rw [lookup_ensureAncestors, if_neg hwalk, Option.or_none, heq]
    · by_cases hwalk : target ∈ ancestorKeys (key put.path)
      · left
        rw [lookup_ensureAncestors, hnone, if_pos hwalk, Option.none_or, hcontainer]
      · right
        refine ⟨?_, hcontainer, other, otherPut, ?_, hmem⟩
        · rw [lookup_ensureAncestors, hnone, if_neg hwalk, Option.none_or]
        · have hne : other ≠ client := by
            rintro rfl
            obtain rfl := Option.some_inj.mp (hput.symm.trans hother)
            exact hwalk (h.walked other put hput target hmem)
          rw [Function.update_of_ne hne, hother]
  · intro other otherPut hother
    rw [pending_finishPut] at hother
    split at hother
    · simp at hother
    · exact h.walked other otherPut hother
  · intro other otherPut hother target hmem
    rw [pending_finishPut] at hother
    split at hother
    · simp at hother
    · exact Finmap.mem_insert.mpr (.inr (h.ensured other otherPut hother target hmem))

/-- Undisturbed steps are simulated. -/
theorem Simulates.step (h : Simulates start configuration sequential) {action : Action Client}
    (hundisturbed : Undisturbed configuration action) {next : Configuration Client}
    (hstep : ConcurrentStore.step configuration action = some next) :
    ∃ sequential', Simulates start next sequential' := by
  obtain ⟨client, path, body, contentType, rfl, hidle, rfl⟩ | ⟨client, call, rfl, hcall, hidle, rfl⟩ |
    ⟨client, put, rfl, hput, rfl⟩ := step_cases hstep
  · exact ⟨_, h.enterPut hidle path body contentType⟩
  · exact ⟨_, h.execute hidle hcall hundisturbed⟩
  · exact ⟨_, h.finishPut hput hundisturbed⟩

/-- A complete run in which nobody interferes with the containers of a put in flight has a
sequential explanation. -/
theorem atomic_of_undisturbed {actions : List (Action Client)} {final : Configuration Client}
    (hrun : run ConcurrentStore.step (Configuration.initial Client start) actions = some final)
    (hundisturbed : EveryStep ConcurrentStore.step Undisturbed
      (Configuration.initial Client start) actions)
    (hcomplete : ∀ client, final.pending client = none) : Atomic start final := by
  have hinitial : ∃ sequential, Simulates start (Configuration.initial Client start) sequential :=
    ⟨start, rfl, fun _ ↦ .inl rfl, by simp [Configuration.initial],
      by simp [Configuration.initial]⟩
  obtain ⟨sequential, hfinal⟩ := invariant_of_everyStep ConcurrentStore.step Undisturbed
    (fun configuration ↦ ∃ sequential, Simulates start configuration sequential)
    (fun _ _ _ hstate hstep hnext ↦ hstate.choose_spec.step hstep hnext) hinitial hundisturbed hrun
  have hstore : final.store = sequential :=
    Finmap.ext_lookup fun target ↦ hfinal.lookup_eq fun client put hput ↦ by
      simp [hcomplete client] at hput
  exact ⟨final.history, .refl _, fun _ ↦ rfl, by rw [hfinal.replays, hstore]⟩

/-- Two clients that write below different containers never disturb each other. -/
theorem atomic_of_undisturbed_siblings :
    ∃ final, run ConcurrentStore.step (Configuration.initial Bool LdpStore.new)
        [.enter false (.put "/a/b".toList [1] []), .enter true (.put "/c".toList [2] []),
          .insert true, .enter true (.get "/c".toList), .insert false] = some final ∧
      Atomic LdpStore.new final := by
  obtain ⟨final, hrun⟩ : ∃ final,
      run ConcurrentStore.step (Configuration.initial Bool LdpStore.new)
        [.enter false (.put "/a/b".toList [1] []), .enter true (.put "/c".toList [2] []),
          .insert true, .enter true (.get "/c".toList), .insert false] = some final := ⟨_, rfl⟩
  refine ⟨final, hrun, atomic_of_undisturbed hrun (by decide) ?_⟩
  obtain rfl := Option.some_inj.mp hrun
  decide

/-- A client that reads a container which a put in flight has created, and then misses the entry
that the put is about to insert there, sees a history without a sequential explanation. -/
theorem exists_run_not_atomic :
    ∃ final, run ConcurrentStore.step (Configuration.initial Bool LdpStore.new)
        [.enter false (.put "/a/b".toList [1] []), .enter true (.get "/a/".toList),
          .enter true (.get "/a/b".toList), .insert false] = some final ∧
      (∀ client, final.pending client = none) ∧ ¬ Atomic LdpStore.new final :=
  ⟨_, rfl, by decide, by decide⟩

end SolidCommunity.ServerCore.Atomicity
