import SolidCommunity.ServerCore.Atomicity

/-!
# Atomicity of Documents

A put is not atomic, since its containers can be seen before its entry.  For documents it is: the
walk names containers only, so a document is read and written in the last section of a call, and the
calls on documents are explained by the order in which they complete, in every interleaving with
any calls on containers.
-/

namespace SolidCommunity.ServerCore.DocumentAtomicity

open Atomicity ConcurrentStore Foundations.FiniteMap Foundations.Runs Foundations.Text LdpStore

/-- The path that a call is about. -/
def path : Call → Str
  | .put path _ _ => path
  | .get path => path
  | .existsAt path => path
  | .delete path => path

/-- Whether a completed call is about a document. -/
def onDocument {Client : Type*} (completed : Completed Client) : Bool :=
  !endsWith (key (path completed.call)) '/'

/-- The stores hold the same documents. -/
def SameDocuments (first second : LdpStore) : Prop :=
  ∀ document, endsWith document '/' = false → first.lookup document = second.lookup document

variable {first second : LdpStore} {call : Call}

/-- Containers can be added on either side. -/
theorem SameDocuments.ensureAncestors (h : SameDocuments first second) (target : Str) :
    SameDocuments first (LdpStore.ensureAncestors second target) := by
  intro document hdocument
  rw [lookup_ensureAncestors_document hdocument, h document hdocument]

theorem SameDocuments.symm (h : SameDocuments first second) : SameDocuments second first :=
  fun document hdocument ↦ (h document hdocument).symm

theorem SameDocuments.insertEntry (h : SameDocuments first second) (target : Str) (body : Bytes)
    (contentType : Str) :
    SameDocuments (LdpStore.insertEntry first target body contentType).1
      (LdpStore.insertEntry second target body contentType).1 := by
  intro document hdocument
  rw [lookup_insertEntry, lookup_insertEntry, h document hdocument]

/-- Whether an entry is new can be told from the entry before it. -/
theorem created_congr {target : Str} (h : first.lookup target = second.lookup target) (body : Bytes)
    (contentType : Str) :
    (LdpStore.insertEntry first target body contentType).2 =
      (LdpStore.insertEntry second target body contentType).2 :=
  congrArg (!·) (decide_eq_decide.mpr (mem_congr h))

/-- What is not about a document changes none. -/
theorem SameDocuments.run_container (h : SameDocuments first second)
    (hcontainer : endsWith (key (path call)) '/' = true) :
    SameDocuments first (call.run second).1 := by
  intro document hdocument
  have hne : document ≠ key (path call) := by
    intro heq
    rw [heq, hcontainer] at hdocument
    exact Bool.noConfusion hdocument
  rw [h document hdocument]
  cases call with
  | get | existsAt => rfl
  | delete => exact ((lookup_delete second _ document).trans (if_neg hne)).symm
  | put target body contentType =>
    calc second.lookup document
        = (LdpStore.ensureAncestors second (key target)).lookup document :=
          (lookup_ensureAncestors_document hdocument second (key target)).symm
      _ = (LdpStore.put second target body contentType).1.lookup document := by
        rw [lookup_put]
        exact (if_neg hne).symm

/-- A call about a document has one result on stores with the same documents, and leaves them with
the same documents. -/
theorem SameDocuments.run_document (h : SameDocuments first second)
    (hdocument : endsWith (key (path call)) '/' = false) :
    (call.run first).2 = (call.run second).2 ∧
      SameDocuments (call.run first).1 (call.run second).1 := by
  have hlookup := h (key (path call)) hdocument
  cases call with
  | get target => exact ⟨congrArg Outcome.entry hlookup, h⟩
  | existsAt target =>
    refine ⟨congrArg Outcome.found ?_, h⟩
    rw [LdpStore.existsAt, LdpStore.existsAt, decide_eq_decide]
    exact mem_congr hlookup
  | delete target =>
    refine ⟨congrArg Outcome.removed ?_, fun document hdocument ↦ ?_⟩
    · rw [LdpStore.delete, LdpStore.delete, decide_eq_decide]
      exact mem_congr hlookup
    · rw [Call.run, Call.run, lookup_delete, lookup_delete, h document hdocument]
  | put target body contentType =>
    have hwalked := ((h.ensureAncestors (key target)).symm.ensureAncestors (key target)).symm
    exact ⟨congrArg Outcome.created
        (created_congr (hwalked (key target) hdocument) body contentType),
      hwalked.insertEntry (key target) body contentType⟩

/-! ## The simulation -/

variable {Client : Type*} {start sequential : LdpStore} {configuration next : Configuration Client}

/-- The sequential store that has executed the completed calls about documents holds the documents
of the concurrent one. -/
structure Explains (start : LdpStore) (configuration : Configuration Client)
    (sequential : LdpStore) : Prop where
  replays : replay start (configuration.history.filter onDocument) = some sequential
  documents : SameDocuments configuration.store sequential

/-- A call that completes with the result and the documents that it has when it runs alone. -/
theorem Explains.complete (h : Explains start configuration sequential)
    {completed : Completed Client}
    (hhistory : next.history = configuration.history ++ [completed])
    (hresult : onDocument completed = true →
      completed.outcome = (completed.call.run configuration.store).2)
    (hdocuments : SameDocuments next.store (completed.call.run configuration.store).1) :
    ∃ sequential', Explains start next sequential' := by
  cases hkind : onDocument completed with
  | true =>
    have hdocument : endsWith (key (path completed.call)) '/' = false := by
      simpa [onDocument] using hkind
    obtain ⟨houtcome, hafter⟩ := h.documents.run_document hdocument
    refine ⟨(completed.call.run sequential).1, ?_, fun document hdocument ↦ ?_⟩
    · rw [hhistory, List.filter_append, List.filter_singleton, hkind]
      exact replay_concat h.replays completed (houtcome.symm.trans (hresult hkind).symm)
    · rw [hdocuments document hdocument, hafter document hdocument]
  | false =>
    have hcontainer : endsWith (key (path completed.call)) '/' = true := by
      simpa [onDocument] using hkind
    refine ⟨sequential, ?_, fun document hdocument ↦ ?_⟩
    · rw [hhistory, List.filter_append, List.filter_singleton, hkind, cond_false, List.append_nil]
      exact h.replays
    · calc next.store.lookup document
          = (completed.call.run configuration.store).1.lookup document :=
            hdocuments document hdocument
        _ = sequential.lookup document :=
            (h.documents.symm.run_container hcontainer document hdocument).symm

variable [DecidableEq Client]

theorem Explains.step (h : Explains start configuration sequential) {action : Action Client}
    (hstep : ConcurrentStore.step configuration action = some next) :
    ∃ sequential', Explains start next sequential' := by
  obtain ⟨client, path, body, contentType, -, -, rfl⟩ | ⟨client, call, -, -, -, rfl⟩ |
    ⟨client, put, -, -, rfl⟩ := step_cases hstep
  · exact ⟨sequential, h.replays, (h.documents.symm.ensureAncestors (key path)).symm⟩
  · exact h.complete rfl (fun _ ↦ rfl) (fun _ _ ↦ rfl)
  · -- The walk of the put ran earlier, and running it again touches no document.
    have hwalked : SameDocuments configuration.store
        (LdpStore.ensureAncestors configuration.store (key put.path)) :=
      SameDocuments.ensureAncestors (fun _ _ ↦ rfl) (key put.path)
    apply h.complete rfl
    · intro hkind
      have hdocument : endsWith (key put.path) '/' = false := by
        simpa [onDocument, path] using hkind
      exact congrArg Outcome.created
        (created_congr (hwalked (key put.path) hdocument) put.body put.contentType)
    · exact hwalked.insertEntry (key put.path) put.body put.contentType

/-- In every interleaving, from any configuration with any puts in flight, the calls about documents
that complete have the results that they have when they run one at a time in the order of their
completion, and the documents at the end are the ones which that leaves. -/
theorem documents_atomic {before after : Configuration Client} {actions : List (Action Client)}
    (hrun : run ConcurrentStore.step { before with history := [] } actions = some after) :
    ∃ final, replay before.store (after.history.filter onDocument) = some final ∧
      ∀ document, endsWith document '/' = false →
        after.store.lookup document = final.lookup document := by
  have hstart : ∃ sequential, Explains before.store { before with history := [] } sequential :=
    ⟨before.store, rfl, fun _ _ ↦ rfl⟩
  obtain ⟨final, hfinal⟩ := invariant_of_run ConcurrentStore.step
    (fun configuration ↦ ∃ sequential, Explains before.store configuration sequential)
    (fun _ _ _ hstate hstep ↦ hstate.choose_spec.step hstep) hstart hrun
  exact ⟨final, hfinal.replays, hfinal.documents⟩

/-- Two puts of one document overlap, and a get falls between their second sections. -/
theorem documents_atomic_overlapping :
    ∃ after, run ConcurrentStore.step (Configuration.initial (Fin 3) LdpStore.new)
        [.enter 0 (.put ['/', 'a', '/', 'b'] [1] []), .enter 1 (.put ['/', 'a', '/', 'b'] [2] []),
          .insert 1, .enter 2 (.get ['/', 'a', '/', 'b']), .insert 0] = some after ∧
      ∃ final, replay LdpStore.new (after.history.filter onDocument) = some final := by
  obtain ⟨after, hrun⟩ : ∃ after,
      run ConcurrentStore.step (Configuration.initial (Fin 3) LdpStore.new)
        [.enter 0 (.put ['/', 'a', '/', 'b'] [1] []), .enter 1 (.put ['/', 'a', '/', 'b'] [2] []),
          .insert 1, .enter 2 (.get ['/', 'a', '/', 'b']), .insert 0] = some after := ⟨_, rfl⟩
  obtain ⟨final, hfinal, -⟩ :=
    @documents_atomic _ _ (Configuration.initial (Fin 3) LdpStore.new) _ _ hrun
  exact ⟨after, hrun, final, hfinal⟩

end SolidCommunity.ServerCore.DocumentAtomicity
