import SolidCommunity.ServerCore.ConcurrentStore
import SolidCommunity.ServerCore.StoreHistory

/-!
# Convergence of Concurrent Puts

While nobody deletes, the store only differs from the sequential execution of the completed puts in
the containers that puts in flight have created ahead of time.  When all of them are done, the store
is the one of their completion order, and of every other order if no two of them share a key.
-/

namespace SolidCommunity.ServerCore.Convergence

open ConcurrentStore Foundations.EntryEffects Foundations.FiniteMap Foundations.Runs
  Foundations.Text LdpStore

variable {Client : Type*}

/-- The put that a completed call was. -/
def completedPut (completed : Completed Client) : Option Mutation :=
  match completed.call with
  | .put path body contentType => some (.put path body contentType)
  | _ => none

/-- The completed puts in the order of their completion. -/
def completedPuts (history : List (Completed Client)) : List Mutation :=
  history.filterMap completedPut

/-- A put in flight needs the container. -/
def Needed (configuration : Configuration Client) (key : Str) : Prop :=
  ∃ client put, configuration.pending client = some put ∧ key ∈ ancestorKeys (LdpStore.key put.path)

open Classical in
/-- The store holds what the completed puts leave, and the containers that puts in flight need. -/
def AheadOf (start : LdpStore) (configuration : Configuration Client) : Prop :=
  ∀ key, configuration.store.lookup key =
    ((Mutation.applyAll start (completedPuts configuration.history)).lookup key).or
      (if Needed configuration key then some emptyContainer else none)

/-- The step does not start a deletion. -/
def NotDelete : Action Client → Prop
  | .enter _ (.delete _) => False
  | _ => True

section

variable {start : LdpStore} {configuration next : Configuration Client}

/-- Containers that are needed for two reasons. -/
theorem or_fallback (entry : Option Entry) {first second either : Prop} [Decidable first]
    [Decidable second] [Decidable either] (h : either ↔ first ∨ second) :
    (entry.or (if first then some emptyContainer else none)).or
        (if second then some emptyContainer else none) =
      entry.or (if either then some emptyContainer else none) := by
  rw [if_congr h rfl rfl]
  by_cases hfirst : first <;> by_cases hsecond : second <;> cases entry <;> simp [hfirst, hsecond]

variable [DecidableEq Client]

/-- The containers needed after a client has entered a put. -/
theorem needed_enterPut {client : Client} (hidle : configuration.pending client = none)
    (path : Str) (body : Bytes) (contentType : Str) (key : Str) :
    Needed (enterPut configuration client path body contentType) key ↔
      Needed configuration key ∨ key ∈ ancestorKeys (LdpStore.key path) := by
  constructor
  · rintro ⟨other, put, hput, hmem⟩
    rw [pending_enterPut] at hput
    split at hput
    · obtain rfl := Option.some_inj.mp hput
      exact .inr hmem
    · exact .inl ⟨other, put, hput, hmem⟩
  · rintro (⟨other, put, hput, hmem⟩ | hmem)
    · have hne : other ≠ client := by
        rintro rfl
        simp [hidle] at hput
      exact ⟨other, put, by rw [pending_enterPut, if_neg hne, hput], hmem⟩
    · refine ⟨client, enteredPut configuration.store path body contentType, ?_, hmem⟩
      rw [pending_enterPut, if_pos rfl]

/-- The containers needed before a client finishes its put are those needed afterwards, and those
of its put. -/
theorem needed_finishPut {client : Client} {put : PendingPut}
    (hput : configuration.pending client = some put) (key : Str) :
    Needed configuration key ↔
      key ∈ ancestorKeys (LdpStore.key put.path) ∨
        Needed (finishPut configuration client put) key := by
  constructor
  · rintro ⟨other, otherPut, hother, hmem⟩
    by_cases hclient : other = client
    · subst hclient
      obtain rfl := Option.some_inj.mp (hput.symm.trans hother)
      exact .inl hmem
    · exact .inr ⟨other, otherPut, by rw [pending_finishPut, if_neg hclient, hother], hmem⟩
  · rintro (hmem | ⟨other, otherPut, hother, hmem⟩)
    · exact ⟨client, put, hput, hmem⟩
    · rw [pending_finishPut] at hother
      split at hother
      · simp at hother
      · exact ⟨other, otherPut, hother, hmem⟩

omit [DecidableEq Client] in
theorem completedPuts_concat (history : List (Completed Client)) (completed : Completed Client) :
    completedPuts (history ++ [completed]) =
      completedPuts history ++ (completedPut completed).toList := by
  rw [completedPuts, List.filterMap_append, completedPuts]
  cases hput : completedPut completed <;> simp [hput]

theorem AheadOf.enterPut (h : AheadOf start configuration) {client : Client}
    (hidle : configuration.pending client = none) (path : Str) (body : Bytes) (contentType : Str) :
    AheadOf start (ConcurrentStore.enterPut configuration client path body contentType) := by
  classical
  intro key
  calc (ensureAncestors configuration.store (LdpStore.key path)).lookup key
      = (configuration.store.lookup key).or
          (if key ∈ ancestorKeys (LdpStore.key path) then some emptyContainer else none) :=
        lookup_ensureAncestors configuration.store (LdpStore.key path) key
    _ = _ := by
        rw [h key]
        exact or_fallback _ (needed_enterPut hidle path body contentType key)

theorem AheadOf.finishPut (h : AheadOf start configuration) {client : Client} {put : PendingPut}
    (hput : configuration.pending client = some put) :
    AheadOf start (ConcurrentStore.finishPut configuration client put) := by
  classical
  intro key
  have hhistory : completedPuts (ConcurrentStore.finishPut configuration client put).history =
      completedPuts configuration.history ++ [.put put.path put.body put.contentType] :=
    completedPuts_concat _ _
  rw [hhistory, Mutation.applyAll_concat]
  have hstore : (ConcurrentStore.finishPut configuration client put).store.lookup key =
      if key = LdpStore.key put.path then
        some ⟨put.body, put.contentType, endsWith (LdpStore.key put.path) '/'⟩
      else configuration.store.lookup key := lookup_insertEntry _ _ _ _ _
  rw [hstore, Mutation.apply, lookup_put]
  by_cases hkey : key = LdpStore.key put.path
  · rw [if_pos hkey, if_pos hkey, Option.some_or]
  · rw [if_neg hkey, if_neg hkey, h key, lookup_ensureAncestors]
    exact (or_fallback _ (needed_finishPut hput key)).symm

theorem AheadOf.step (h : AheadOf start configuration) {action : Action Client}
    (hdelete : NotDelete action) (hstep : ConcurrentStore.step configuration action = some next) :
    AheadOf start next := by
  obtain ⟨client, path, body, contentType, -, hidle, rfl⟩ | ⟨client, call, rfl, hcall, -, rfl⟩ |
    ⟨client, put, -, hput, rfl⟩ := step_cases hstep
  · exact h.enterPut hidle path body contentType
  · have hreads : (call.run configuration.store).1 = configuration.store ∧
        completedPut ⟨client, call, (call.run configuration.store).2⟩ = none := by
      cases call with
      | put => simp [Call.isPut] at hcall
      | get | existsAt => exact ⟨rfl, rfl⟩
      | delete => exact hdelete.elim
    intro key
    rw [execute, hreads.1, completedPuts_concat, hreads.2, Option.toList_none, List.append_nil]
    exact h key
  · exact h.finishPut hput

end

/-! ## Orders -/

/-- On every entry, the effects of puts with different keys agree. -/
theorem agrees_of_target_ne {first second : Mutation} (hfirst : first.isPut = true)
    (hsecond : second.isPut = true) (hne : first.target ≠ second.target) (key : Str) :
    (first.effect key).Agrees (second.effect key) := by
  have hwritten {put : Mutation} (hput : put.isPut = true) : put.written.isSome = true := by
    cases put with
    | put => rfl
    | delete => simp [Mutation.isPut] at hput
  unfold Mutation.effect
  by_cases hkey : key = first.target
  · have hother : key ≠ second.target := fun heq ↦ hne (hkey.symm.trans heq)
    rw [if_pos hkey, if_neg hother]
    split
    · exact hwritten hfirst
    · trivial
  · rw [if_neg hkey]
    by_cases hother : key = second.target
    · rw [if_pos hother]
      split
      · exact hwritten hsecond
      · trivial
    · rw [if_neg hother]
      split
      · split <;> trivial
      · trivial

/-- Puts with different keys lead to one store in every order. -/
theorem applyAll_perm {puts order : List Mutation} (hputs : ∀ put ∈ puts, put.isPut = true)
    (hdistinct : (puts.map Mutation.target).Nodup) (hperm : puts.Perm order) (start : LdpStore) :
    Mutation.applyAll start puts = Mutation.applyAll start order := by
  apply hperm.foldl_eq'
  intro first hfirst second hsecond store
  by_cases heq : first = second
  · rw [heq]
  · have hne : first.target ≠ second.target :=
      fun htarget ↦ heq (List.inj_on_of_nodup_map hdistinct hfirst hsecond htarget)
    exact Mutation.pointwise_apply.comm
      (agrees_of_target_ne (hputs first hfirst) (hputs second hsecond) hne) store

variable [DecidableEq Client]

/-- In every interleaving without deletions, once all puts are done the store is the one that the
puts leave when they run one at a time: in the order of their completion, and in every order if no
two of them share a key. -/
theorem puts_converge {start : LdpStore} {actions : List (Action Client)}
    {final : Configuration Client}
    (hrun : run ConcurrentStore.step (Configuration.initial Client start) actions = some final)
    (hdelete : ∀ action ∈ actions, NotDelete action)
    (hdone : ∀ client, final.pending client = none) :
    final.store = Mutation.applyAll start (completedPuts final.history) ∧
      ∀ order, ((completedPuts final.history).map Mutation.target).Nodup →
        (completedPuts final.history).Perm order →
        final.store = Mutation.applyAll start order := by
  have hstart : AheadOf start (Configuration.initial Client start) := by
    intro key
    have hnone : ¬ Needed (Configuration.initial Client start) key := by
      rintro ⟨client, put, hput, -⟩
      simp [Configuration.initial] at hput
    rw [if_neg hnone, Option.or_none]
    rfl
  have hahead : AheadOf start final := invariant_of_everyStep ConcurrentStore.step _ (AheadOf start)
    (fun _ _ _ hstate hcondition hstep ↦ hstate.step hcondition.2 hstep) hstart
    ((everyStep_true ConcurrentStore.step _ actions).and_forall_mem ConcurrentStore.step hdelete) hrun
  have hstore : final.store = Mutation.applyAll start (completedPuts final.history) := by
    apply Finmap.ext_lookup
    intro key
    have hnone : ¬ Needed final key := by
      rintro ⟨client, put, hput, -⟩
      simp [hdone client] at hput
    rw [hahead key, if_neg hnone, Option.or_none]
  have hputs (put : Mutation) (hput : put ∈ completedPuts final.history) : put.isPut = true := by
    obtain ⟨completed, -, hcompleted⟩ := List.mem_filterMap.mp hput
    unfold completedPut at hcompleted
    split at hcompleted
    · obtain rfl := Option.some_inj.mp hcompleted
      rfl
    · simp at hcompleted
  exact ⟨hstore, fun order hdistinct hperm ↦
    hstore.trans (applyAll_perm hputs hdistinct hperm start)⟩

/-- Two puts in one container, the second of which enters while the first is in flight. -/
theorem puts_converge_siblings :
    ∃ final, run ConcurrentStore.step (Configuration.initial Bool LdpStore.new)
        [.enter false (.put ['/', 'a', '/', 'b'] [1] []), .enter true (.put ['/', 'a', '/'] [2] []),
          .insert true, .insert false] = some final ∧
      final.store = Mutation.applyAll LdpStore.new
        [.put ['/', 'a', '/', 'b'] [1] [], .put ['/', 'a', '/'] [2] []] := by
  obtain ⟨final, hrun, hputs, hidle⟩ : ∃ final,
      run ConcurrentStore.step (Configuration.initial Bool LdpStore.new)
        [.enter false (.put ['/', 'a', '/', 'b'] [1] []), .enter true (.put ['/', 'a', '/'] [2] []),
          .insert true, .insert false] = some final ∧
      completedPuts final.history =
        [.put ['/', 'a', '/'] [2] [], .put ['/', 'a', '/', 'b'] [1] []] ∧
      final.pending false = none ∧ final.pending true = none := ⟨_, rfl, rfl, rfl, rfl⟩
  have hconverge := puts_converge hrun
    (by simp [NotDelete]) (Bool.forall_bool.mpr hidle)
  rw [hputs] at hconverge
  exact ⟨final, hrun, hconverge.2 _ (by decide) (.swap _ _ [])⟩

end SolidCommunity.ServerCore.Convergence
