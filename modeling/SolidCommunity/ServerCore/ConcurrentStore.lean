import Mathlib.Logic.Function.Basic
import SolidCommunity.Foundations.Runs
import SolidCommunity.ServerCore.Store

/-!
# Concurrent Clients of the Store

Any number of clients share one store, and each section under the store's lock is one atomic step:
`get`, `exists` and `delete` are one step, `put` is two, and between them other clients run.  A
configuration records the calls in flight and the history of completed calls in completion order.
The ancestor walk of a put names containers only, so a document is touched by nothing but the second
section of a put of its own key and by its own deletions.
-/

namespace SolidCommunity.ServerCore.ConcurrentStore

open Foundations.FiniteMap Foundations.Runs Foundations.Text LdpStore

/-- A client's call. -/
inductive Call where
  | put (path : Str) (body : Bytes) (contentType : Str)
  | get (path : Str)
  | existsAt (path : Str)
  | delete (path : Str)
deriving DecidableEq

/-- What a call returns. -/
inductive Outcome where
  | created (flag : Bool)
  | entry (result : Option Entry)
  | found (flag : Bool)
  | removed (flag : Bool)
deriving DecidableEq

/-- The call executed without interruption. -/
def Call.run (store : LdpStore) : Call → LdpStore × Outcome
  | put path body contentType =>
    ((LdpStore.put store path body contentType).1,
      .created (LdpStore.put store path body contentType).2)
  | get path => (store, .entry (LdpStore.get store path))
  | existsAt path => (store, .found (LdpStore.existsAt store path))
  | delete path => ((LdpStore.delete store path).1, .removed (LdpStore.delete store path).2)

/-- Whether the call has a second section. -/
def Call.isPut : Call → Bool
  | put _ _ _ => true
  | _ => false

/-- A put between its two sections.  The last field records the ancestors that its first section
has just created, which the source writes to its log. -/
structure PendingPut where
  path : Str
  body : Bytes
  contentType : Str
  createdAncestors : List Str
deriving DecidableEq

/-- A completed call with its result. -/
structure Completed (Client : Type*) where
  client : Client
  call : Call
  outcome : Outcome
deriving DecidableEq

/-- The store, the puts in flight, and the completed calls in the order of their completion. -/
structure Configuration (Client : Type*) where
  store : LdpStore
  pending : Client → Option PendingPut
  history : List (Completed Client)

/-- No call in flight and nothing completed yet. -/
def Configuration.initial (Client : Type*) (store : LdpStore) : Configuration Client where
  store := store
  pending _ := none
  history := []

/-- A client enters a call, which is the whole call unless it is a put, or inserts the entry of its
put in flight. -/
inductive Action (Client : Type*) where
  | enter (client : Client) (call : Call)
  | insert (client : Client)

variable {Client : Type*}

section Steps

variable [DecidableEq Client]

/-- The put in flight after its first section has run on `store`. -/
def enteredPut (store : LdpStore) (path : Str) (body : Bytes) (contentType : Str) : PendingPut where
  path := path
  body := body
  contentType := contentType
  createdAncestors := (ancestorKeys (key path)).filter (· ∉ store)

/-- The first section of a put. -/
def enterPut (configuration : Configuration Client) (client : Client) (path : Str) (body : Bytes)
    (contentType : Str) : Configuration Client where
  store := ensureAncestors configuration.store (key path)
  pending := Function.update configuration.pending client
    (some (enteredPut configuration.store path body contentType))
  history := configuration.history

/-- A call with one section. -/
def execute (configuration : Configuration Client) (client : Client) (call : Call) :
    Configuration Client where
  store := (call.run configuration.store).1
  pending := configuration.pending
  history := configuration.history ++ [⟨client, call, (call.run configuration.store).2⟩]

/-- The second section of a put. -/
def finishPut (configuration : Configuration Client) (client : Client) (put : PendingPut) :
    Configuration Client :=
  let inserted := insertEntry configuration.store (key put.path) put.body put.contentType
  { store := inserted.1
    pending := Function.update configuration.pending client none
    history := configuration.history ++
      [⟨client, .put put.path put.body put.contentType, .created inserted.2⟩] }

/-- A client has one call in flight at a time. -/
def step (configuration : Configuration Client) :
    Action Client → Option (Configuration Client)
  | .enter client call =>
    if (configuration.pending client).isSome then none
    else
      match call with
      | .put path body contentType => some (enterPut configuration client path body contentType)
      | call => some (execute configuration client call)
  | .insert client => (configuration.pending client).map (finishPut configuration client)

theorem pending_enterPut (configuration : Configuration Client) (client other : Client)
    (path : Str) (body : Bytes) (contentType : Str) :
    (enterPut configuration client path body contentType).pending other =
      if other = client then some (enteredPut configuration.store path body contentType)
      else configuration.pending other :=
  Function.update_apply ..

theorem pending_finishPut (configuration : Configuration Client) (client other : Client)
    (put : PendingPut) :
    (finishPut configuration client put).pending other =
      if other = client then none else configuration.pending other :=
  Function.update_apply ..

/-- Everything that one step can do. -/
theorem step_cases {configuration next : Configuration Client} {action : Action Client}
    (h : step configuration action = some next) :
    (∃ client path body contentType, action = .enter client (.put path body contentType) ∧
      configuration.pending client = none ∧
      next = enterPut configuration client path body contentType) ∨
    (∃ client call, action = .enter client call ∧ call.isPut = false ∧
      configuration.pending client = none ∧ next = execute configuration client call) ∨
    (∃ client put, action = .insert client ∧ configuration.pending client = some put ∧
      next = finishPut configuration client put) := by
  cases action with
  | enter client call =>
    cases hpending : configuration.pending client with
    | some put => simp [step, hpending] at h
    | none =>
      cases call with
      | put path body contentType =>
        obtain rfl : enterPut configuration client path body contentType = next := by
          simpa [step, hpending] using h
        exact .inl ⟨client, path, body, contentType, rfl, hpending, rfl⟩
      | get path | existsAt path | delete path =>
        obtain rfl : execute configuration client _ = next := by simpa [step, hpending] using h
        exact .inr (.inl ⟨client, _, rfl, rfl, hpending, rfl⟩)
  | insert client =>
    obtain ⟨put, hput, rfl⟩ := Option.map_eq_some_iff.mp h
    exact .inr (.inr ⟨client, put, rfl, hput, rfl⟩)

/-- A call with one section changes the store only by deleting. -/
theorem run_of_not_put {call : Call} (h : call.isPut = false) (store : LdpStore) :
    (call.run store).1 = store ∨
      ∃ path, call = .delete path ∧ (call.run store).1 = (LdpStore.delete store path).1 := by
  cases call with
  | put path body contentType => simp [Call.isPut] at h
  | get path => exact .inl rfl
  | existsAt path => exact .inl rfl
  | delete path => exact .inr ⟨path, rfl, rfl⟩

/-- Every step keeps the container flags in agreement with the keys. -/
theorem kindsAgree_step {configuration next : Configuration Client} {action : Action Client}
    (hkinds : KindsAgree configuration.store) (h : step configuration action = some next) :
    KindsAgree next.store := by
  obtain ⟨client, path, body, contentType, -, -, rfl⟩ | ⟨client, call, -, hcall, -, rfl⟩ |
    ⟨client, put, -, -, rfl⟩ := step_cases h
  · exact hkinds.ensureAncestors (key path)
  · rcases run_of_not_put hcall configuration.store with hsame | ⟨path, -, hdelete⟩
    · rw [execute, hsame]
      exact hkinds
    · rw [execute, hdelete]
      exact hkinds.delete path
  · exact hkinds.insertEntry (key put.path) put.body put.contentType

end Steps

/-! ## Accounting for one document -/

/-- Whether a completed call is a put of `document` that reported a creation. -/
def Completed.creates (document : Str) (completed : Completed Client) : Bool :=
  match completed.call, completed.outcome with
  | .put path _ _, .created true => key path == document
  | _, _ => false

/-- Whether a completed call is a deletion of `document` that reported a removal. -/
def Completed.removes (document : Str) (completed : Completed Client) : Bool :=
  match completed.call, completed.outcome with
  | .delete path, .removed true => key path == document
  | _, _ => false

/-- The body and content type that a completed put of `document` inserted. -/
def Completed.written (document : Str) (completed : Completed Client) : Option (Bytes × Str) :=
  match completed.call with
  | .put path body contentType => if key path = document then some (body, contentType) else none
  | _ => none

/-- The data of the last put of `document` in a history. -/
def lastWritten (document : Str) (history : List (Completed Client)) : Option (Bytes × Str) :=
  (history.filterMap (Completed.written document)).getLast?

/-- One if the key is stored, zero otherwise. -/
def presence (store : LdpStore) (document : Str) : ℤ := if document ∈ store then 1 else 0

/-- Creations minus removals in the history are the change of presence, and a stored document is the
last one written. -/
structure Accounted (document : Str) (start : LdpStore) (configuration : Configuration Client) :
    Prop where
  balance : (configuration.history.countP (Completed.creates document) : ℤ) -
      configuration.history.countP (Completed.removes document) =
    presence configuration.store document - presence start document
  content : ∀ entry, configuration.store.lookup document = some entry →
    match lastWritten document configuration.history with
    | some (body, contentType) => entry = ⟨body, contentType, false⟩
    | none => start.lookup document = some entry

theorem presence_congr {first second : LdpStore} {document : Str}
    (h : first.lookup document = second.lookup document) :
    presence first document = presence second document := by
  have hmem : document ∈ first ↔ document ∈ second := by
    rw [← Finmap.lookup_isSome, ← Finmap.lookup_isSome, h]
  simp [presence, hmem]

theorem lastWritten_concat (document : Str) (history : List (Completed Client))
    (completed : Completed Client) :
    lastWritten document (history ++ [completed]) =
      (completed.written document).or (lastWritten document history) := by
  unfold lastWritten
  rw [List.filterMap_append]
  cases hwritten : completed.written document with
  | none => simp [hwritten]
  | some data => simp [hwritten]

/-- The first section of a put leaves a document as it was. -/
theorem lookup_ensureAncestors_document {document : Str} (hdocument : endsWith document '/' = false)
    (store : LdpStore) (target : Str) :
    (ensureAncestors store target).lookup document = store.lookup document := by
  have hnot : document ∉ ancestorKeys target := by
    intro hmem
    rw [endsWith_of_mem_ancestorKeys hmem] at hdocument
    exact Bool.noConfusion hdocument
  rw [lookup_ensureAncestors, if_neg hnot, Option.or_none]

section Accounting

variable {document : Str} {start : LdpStore} {configuration : Configuration Client}

/-- A step that neither completes a put or deletion of the document nor touches its entry. -/
theorem Accounted.untouched (h : Accounted document start configuration)
    {next : Configuration Client}
    (hlookup : next.store.lookup document = configuration.store.lookup document)
    (suffix : List (Completed Client)) (hhistory : next.history = configuration.history ++ suffix)
    (hcreates : ∀ completed ∈ suffix, completed.creates document = false)
    (hremoves : ∀ completed ∈ suffix, completed.removes document = false)
    (hwritten : ∀ completed ∈ suffix, completed.written document = none) :
    Accounted document start next where
  balance := by
    have hcreated : suffix.countP (Completed.creates document) = 0 :=
      List.countP_eq_zero.mpr fun completed hmem ↦ by simp [hcreates completed hmem]
    have hremoved : suffix.countP (Completed.removes document) = 0 :=
      List.countP_eq_zero.mpr fun completed hmem ↦ by simp [hremoves completed hmem]
    rw [hhistory, List.countP_append, List.countP_append, hcreated, hremoved,
      presence_congr hlookup]
    exact h.balance
  content entry hentry := by
    have hnone : suffix.filterMap (Completed.written document) = [] :=
      List.filterMap_eq_nil_iff.mpr hwritten
    rw [hlookup] at hentry
    rw [hhistory, lastWritten, List.filterMap_append, hnone, List.append_nil]
    exact h.content entry hentry

/-- A deletion of the document is counted exactly when it removed something. -/
theorem Accounted.deleted (h : Accounted document start configuration) (client : Client)
    {path : Str} (hkey : key path = document) :
    Accounted document start (execute configuration client (.delete path)) where
  balance := by
    have hbalance := h.balance
    have hgone : document ∉ (execute configuration client (.delete path)).store := by
      rw [execute, Call.run, mem_delete]
      exact fun hmem ↦ hmem.1 hkey.symm
    have hpresent : presence (execute configuration client (.delete path)).store document = 0 :=
      if_neg hgone
    rw [hpresent]
    by_cases hstored : document ∈ configuration.store
    · rw [presence, if_pos hstored] at hbalance
      simp [execute, Call.run, LdpStore.delete, Completed.creates, Completed.removes,
        List.countP_append, hkey, hstored]
      omega
    · rw [presence, if_neg hstored] at hbalance
      simpa [execute, Call.run, LdpStore.delete, Completed.creates, Completed.removes,
        List.countP_append, hkey, hstored] using hbalance
  content entry hentry := by
    rw [execute, Call.run, lookup_delete, if_pos hkey.symm] at hentry
    simp at hentry

/-- A call with one section leaves the document alone or deletes it. -/
theorem Accounted.execute (h : Accounted document start configuration) (client : Client)
    {call : Call} (hcall : call.isPut = false) :
    Accounted document start (ConcurrentStore.execute configuration client call) := by
  cases call with
  | put path body contentType => simp [Call.isPut] at hcall
  | get path | existsAt path =>
    exact h.untouched rfl [_] rfl (by simp [Completed.creates])
      (by simp [Completed.removes]) (by simp [Completed.written])
  | delete path =>
    by_cases hkey : key path = document
    · exact h.deleted client hkey
    · refine h.untouched ?_ [_] rfl (by simp [Completed.creates]) ?_
        (by simp [Completed.written])
      · rw [ConcurrentStore.execute, Call.run, lookup_delete, if_neg (Ne.symm hkey)]
      · cases hstored : decide (key path ∈ configuration.store) <;>
          simp [Completed.removes, Call.run, LdpStore.delete, hstored, hkey]

variable [DecidableEq Client]

/-- The second section of a put decides presence and content of its own key. -/
theorem Accounted.finishPut (h : Accounted document start configuration)
    (hdocument : endsWith document '/' = false) (client : Client) (put : PendingPut) :
    Accounted document start (ConcurrentStore.finishPut configuration client put) := by
  by_cases hkey : key put.path = document
  · constructor
    · have hbalance := h.balance
      have hpresent :
          presence (ConcurrentStore.finishPut configuration client put).store document = 1 := by
        rw [presence, if_pos]
        exact Finmap.mem_insert.mpr (.inl hkey.symm)
      rw [hpresent]
      by_cases hstored : document ∈ configuration.store
      · rw [presence, if_pos hstored] at hbalance
        simpa [ConcurrentStore.finishPut, insertEntry, Completed.creates, Completed.removes,
          List.countP_append, hkey, hstored] using hbalance
      · rw [presence, if_neg hstored] at hbalance
        simp [ConcurrentStore.finishPut, insertEntry, Completed.creates, Completed.removes,
          List.countP_append, hkey, hstored]
        omega
    · intro entry hentry
      rw [ConcurrentStore.finishPut, lookup_insertEntry, if_pos hkey.symm, hkey, hdocument] at hentry
      rw [ConcurrentStore.finishPut, lastWritten_concat]
      simpa [Completed.written, hkey] using hentry.symm
  · refine h.untouched ?_ [_] rfl ?_ (by simp [Completed.removes]) ?_
    · rw [ConcurrentStore.finishPut, lookup_insertEntry, if_neg (Ne.symm hkey)]
    · cases hstored : decide (key put.path ∈ configuration.store) <;>
        simp [Completed.creates, insertEntry, hstored, hkey]
    · simp [Completed.written, hkey]

/-- Every step keeps the accounts of every document. -/
theorem Accounted.step (hdocument : endsWith document '/' = false)
    (h : Accounted document start configuration) {action : Action Client}
    {next : Configuration Client} (hstep : ConcurrentStore.step configuration action = some next) :
    Accounted document start next := by
  obtain ⟨client, path, body, contentType, -, -, rfl⟩ | ⟨client, call, -, hcall, -, rfl⟩ |
    ⟨client, put, -, -, rfl⟩ := step_cases hstep
  · exact h.untouched (lookup_ensureAncestors_document hdocument configuration.store (key path))
      [] (by simp [enterPut]) (by simp) (by simp) (by simp)
  · exact h.execute client hcall
  · exact h.finishPut hdocument client put

/-- No document is lost or invented: from any reachable configuration, in any interleaving, the
reported creations and removals account for its presence, and it holds what its last put wrote. -/
theorem document_accounted {before after : Configuration Client}
    (hreachable : Reachable step (Configuration.initial Client LdpStore.new) before)
    {actions : List (Action Client)}
    (hrun : run step { before with history := [] } actions = some after)
    (hdocument : endsWith document '/' = false) :
    (after.history.countP (Completed.creates document) : ℤ) -
        after.history.countP (Completed.removes document) =
      presence after.store document - presence before.store document ∧
    ∀ entry, after.store.lookup document = some entry →
      match lastWritten document after.history with
      | some (body, contentType) => entry = ⟨body, contentType, false⟩
      | none => before.store.lookup document = some entry ∧ entry.isContainer = false := by
  have hkinds : KindsAgree before.store :=
    invariant_of_reachable ConcurrentStore.step (fun configuration ↦ KindsAgree configuration.store)
      (fun _ _ _ hstate hstep ↦ kindsAgree_step hstate hstep) kindsAgree_new hreachable
  have hstart : Accounted document before.store { before with history := [] } :=
    { balance := by simp
      content := fun entry hentry ↦ by simpa [lastWritten] using hentry }
  have hfinal : Accounted document before.store after :=
    invariant_of_run ConcurrentStore.step (Accounted document before.store)
      (fun _ _ _ hstate hstep ↦ hstate.step hdocument hstep) hstart hrun
  refine ⟨hfinal.balance, fun entry hentry ↦ ?_⟩
  have hcontent := hfinal.content entry hentry
  split at hcontent
  · exact hcontent
  · exact ⟨hcontent, (hkinds document entry hcontent).trans hdocument⟩

end Accounting

/-- A container deleted between the sections of a put below it does not disturb the accounts: the
put reports a creation, and its document is there. -/
theorem document_accounted_across_deletion :
    ∃ after, run step (Configuration.initial Bool LdpStore.new)
        [.enter false (.put ['/', 'a', '/', 'b'] [1] []), .enter true (.delete ['/', 'a', '/']),
          .insert false] = some after ∧
      ⟨false, .put ['/', 'a', '/', 'b'] [1] [], .created true⟩ ∈ after.history ∧
      after.store.lookup ['/', 'a', '/', 'b'] = some ⟨[1], [], false⟩ ∧
      (after.history.countP (Completed.creates ['/', 'a', '/', 'b']) : ℤ) -
          after.history.countP (Completed.removes ['/', 'a', '/', 'b']) =
        presence after.store ['/', 'a', '/', 'b'] - presence LdpStore.new ['/', 'a', '/', 'b'] := by
  have hreachable : Reachable step (Configuration.initial Bool LdpStore.new)
      (Configuration.initial Bool LdpStore.new) := ⟨[], rfl⟩
  obtain ⟨after, hrun, hcreated, hpresent, hlast⟩ :
      ∃ after, run step (Configuration.initial Bool LdpStore.new)
          [.enter false (.put ['/', 'a', '/', 'b'] [1] []), .enter true (.delete ['/', 'a', '/']),
            .insert false] = some after ∧
        ⟨false, .put ['/', 'a', '/', 'b'] [1] [], .created true⟩ ∈ after.history ∧
        ['/', 'a', '/', 'b'] ∈ after.store ∧
        lastWritten ['/', 'a', '/', 'b'] after.history = some ([1], []) :=
    ⟨_, rfl, by decide, by decide, by decide⟩
  have hdocument : endsWith ['/', 'a', '/', 'b'] '/' = false := rfl
  obtain ⟨hbalance, hcontent⟩ := document_accounted hreachable hrun hdocument
  obtain ⟨entry, hentry⟩ := Finmap.mem_iff.mp hpresent
  have hheld := hcontent entry hentry
  rw [hlast] at hheld
  exact ⟨after, hrun, hcreated, hheld ▸ hentry, hbalance⟩

end SolidCommunity.ServerCore.ConcurrentStore
