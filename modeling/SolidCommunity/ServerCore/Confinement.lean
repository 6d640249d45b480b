import SolidCommunity.ServerCore.Isolation

/-!
# What Authorisation Confines

An entry changes in a run only on behalf of approved requests: one of them named it for writing, or
it is a container that was absent and that an approved write below it needed.  Nor does an entry
influence a run in which no approved request refers to it.  The names are those of the handlers;
they are the ones that were authorised for the requests whose paths name themselves.
-/

namespace SolidCommunity.ServerCore.Service

open Foundations.EntryEffects Foundations.FiniteMap Foundations.Runs Foundations.Text Http
  LdpHandlers Pipeline RequestPipeline Routing

variable {authz : AuthzState} {routerAnswer : Request → Response}

/-! ## Integrity -/

/-- The key that a write to the captured path assigns: that of the path, or of the child that a post
creates there. -/
def writtenKey (arrival : Arrival) (path : Option Str) : Str :=
  match arrival.request.method with
  | .post => LdpStore.key (childKey (resolvePath path) arrival.slug)
  | _ => accessedKey path

/-- An approved request whose handler mutates the store under the key.  The reader and the authoriser
were asked for writing to the request's path, which is the path that the handler writes to if it
names itself. -/
structure ApprovedWrite (authz : AuthzState) (arrival : Arrival) (key : Str) : Prop where
  mutates : ∃ change, mutation authz arrival = some change ∧ change.target = key
  approved : Approved authz arrival.request
  mode : ∃ modes, (accessMap arrival.request).lookup ⟨arrival.request.path⟩ = some modes ∧
    AccessMode.write ∈ modes
  names : ∃ path, capture arrival.request.path = some path ∧ key = writtenKey arrival path ∧
    (NamesItself arrival.request.path → accessedKey path = arrival.request.path)

/-- A request comes to a mutation only if it is an approved write of the mutation's key. -/
theorem approvedWrite_of_mutation {arrival : Arrival} {change : Mutation}
    (h : mutation authz arrival = some change) : ApprovedWrite authz arrival change.target := by
  obtain ⟨happroves, hrouted⟩ := Option.ite_none_right_eq_some.mp h
  obtain ⟨path, hcapture, hhandled⟩ := Option.bind_eq_some_iff.mp hrouted
  have hmode : accessMode arrival.request.method = .write :=
    accessMode_of_isSome_mutation ⟨path, arrival.slug, arrival.request⟩ (by rw [hhandled]; rfl)
  refine
    { mutates := ⟨change, h, rfl⟩
      approved := approves_eq_true_iff.mp happroves
      mode := ⟨_, lookup_accessMap arrival.request, Finset.mem_singleton.mpr hmode.symm⟩
      names := ⟨path, hcapture, ?_, (accessedKey_eq_path_iff hcapture).mpr⟩ }
  unfold HandledRequest.mutation at hhandled
  unfold writtenKey
  cases hmethod : arrival.request.method with
  | put =>
    simp only [hmethod] at hhandled
    obtain ⟨body, -, rfl⟩ := Option.map_eq_some_iff.mp hhandled
    rfl
  | post =>
    simp only [hmethod] at hhandled
    obtain ⟨body, -, rfl⟩ := Option.map_eq_some_iff.mp hhandled
    rfl
  | delete =>
    simp only [hmethod] at hhandled
    obtain rfl := Option.some_inj.mp hhandled
    rfl
  | _ => simp [hmethod] at hhandled

/-- What a history that never names a key does to its entry. -/
theorem lookup_applyAll_of_unnamed {key : Str} {history : List Mutation}
    (h : ∀ change ∈ history, change.target ≠ key) (store : LdpStore) :
    (Mutation.applyAll store history).lookup key = store.lookup key ∨
      store.lookup key = none ∧ (Mutation.applyAll store history).lookup key = some emptyContainer ∧
        ∃ change ∈ history, key ∈ change.ensures := by
  induction history generalizing store with
  | nil => exact .inl rfl
  | cons change history ih =>
    have hunnamed : key ≠ change.target := (h change List.mem_cons_self).symm
    have hlookup := Mutation.pointwise_apply store change key
    rw [Mutation.effect, if_neg hunnamed] at hlookup
    have hrest := ih (fun other hother ↦ h other (List.mem_cons_of_mem change hother))
      (change.apply store)
    by_cases hensures : key ∈ change.ensures
    · rw [if_pos hensures] at hlookup
      have hstored : (change.apply store).lookup key ≠ none := by
        rw [hlookup]
        cases store.lookup key <;> exact Option.some_ne_none _
      have hkept := hrest.resolve_right fun hadded ↦ hstored hadded.1
      cases hbefore : store.lookup key with
      | none =>
        rw [hbefore] at hlookup
        exact .inr ⟨rfl, hkept.trans hlookup, change, List.mem_cons_self, hensures⟩
      | some entry =>
        rw [hbefore] at hlookup
        exact .inl (hkept.trans hlookup)
    · rw [if_neg hensures] at hlookup
      have hsame : (change.apply store).lookup key = store.lookup key := hlookup
      rw [hsame] at hrest
      apply hrest.imp_right
      rintro ⟨hnone, hadded, other, hother, hmem⟩
      exact ⟨hnone, hadded, other, List.mem_cons_of_mem change hother, hmem⟩

/-- After any run an entry is what it was, or an approved request wrote it, or it is an empty
container that was absent and that lies above what an approved request wrote. -/
theorem change_attributed (authz : AuthzState) (routerAnswer : Request → Response)
    (store : LdpStore) (arrivals : List Arrival) (key : Str) :
    (after (serve authz routerAnswer) store arrivals).lookup key = store.lookup key ∨
      (∃ arrival ∈ arrivals, ApprovedWrite authz arrival key) ∨
      (store.lookup key = none ∧
        (after (serve authz routerAnswer) store arrivals).lookup key = some emptyContainer ∧
        ∃ arrival ∈ arrivals, ∃ target, ApprovedWrite authz arrival target ∧
          key ∈ LdpStore.ancestorKeys target) := by
  rw [after_serve]
  by_cases hnamed : ∃ change ∈ history authz arrivals, change.target = key
  · obtain ⟨change, hchange, rfl⟩ := hnamed
    obtain ⟨arrival, harrival, hmutation⟩ := List.mem_filterMap.mp hchange
    exact .inr (.inl ⟨arrival, harrival, approvedWrite_of_mutation hmutation⟩)
  · have hunnamed (change : Mutation) (hchange : change ∈ history authz arrivals) :
        change.target ≠ key := fun htarget ↦ hnamed ⟨change, hchange, htarget⟩
    rcases lookup_applyAll_of_unnamed hunnamed store with hsame | ⟨hnone, hadded, change, hchange, hmem⟩
    · exact .inl hsame
    · obtain ⟨arrival, harrival, hmutation⟩ := List.mem_filterMap.mp hchange
      have hancestor : key ∈ LdpStore.ancestorKeys change.target := by
        cases change with
        | put path body contentType => exact hmem
        | delete path => simp [Mutation.ensures] at hmem
      exact .inr (.inr ⟨hnone, hadded, arrival, harrival, change.target,
        approvedWrite_of_mutation hmutation, hancestor⟩)

/-! ## Confidentiality -/

/-- The stores hold the same entries, except possibly under the key. -/
def AgreeExcept (key : Str) (first second : LdpStore) : Prop :=
  ∀ other, other ≠ key → first.lookup other = second.lookup other

/-- Requests that do not refer to the key neither show its entry nor spread it. -/
theorem unwinds_agreeExcept (authz : AuthzState) (routerAnswer : Request → Response) (key : Str) :
    Unwinds (serve authz routerAnswer) (fun arrival ↦ key ∉ observed authz arrival)
      (AgreeExcept key) where
  response first second arrival hallowed hagree := by
    apply answer_congr
    intro other hother
    apply hagree
    rintro rfl
    exact hallowed hother
  next first second arrival hallowed hagree other hother := by
    have hfirst := pointwise_serve authz routerAnswer first arrival other
    have hsecond := pointwise_serve authz routerAnswer second arrival other
    exact hfirst.trans ((congrArg _ (hagree other hother)).trans hsecond.symm)

/-- When no approved request of a run refers to a key, the entry under it influences no answer and
no other entry. -/
theorem entry_unobserved {key : Str} {arrivals : List Arrival}
    (hunobserved : ∀ arrival ∈ arrivals, key ∉ observed authz arrival) {first second : LdpStore}
    (hagree : AgreeExcept key first second) :
    transcript (serve authz routerAnswer) first arrivals =
        transcript (serve authz routerAnswer) second arrivals ∧
      AgreeExcept key (after (serve authz routerAnswer) first arrivals)
        (after (serve authz routerAnswer) second arrivals) :=
  (unwinds_agreeExcept authz routerAnswer key).transcript_eq hunobserved hagree

/-- An anonymous get of a document does not tell whether the document is there, nor does a put
elsewhere. -/
theorem entry_unobserved_anonymous :
    transcript (serve knownToken fun _ ↦ StatusCode.notFound.intoResponse) LdpStore.new
        [⟨⟨.get, "/b".toList, [], none⟩, sampleSlug⟩, tokenPut] =
      transcript (serve knownToken fun _ ↦ StatusCode.notFound.intoResponse)
        (LdpStore.new.insert "/b".toList emptyContainer)
        [⟨⟨.get, "/b".toList, [], none⟩, sampleSlug⟩, tokenPut] := by
  have hunobserved : ∀ arrival ∈ ([⟨⟨.get, "/b".toList, [], none⟩, sampleSlug⟩, tokenPut] :
      List Arrival), "/b".toList ∉ observed knownToken arrival := by
    decide
  have hagree : AgreeExcept "/b".toList LdpStore.new
      (LdpStore.new.insert "/b".toList emptyContainer) := by
    intro other hother
    rw [lookup_insert_eq_ite, if_neg hother]
  exact (entry_unobserved hunobserved hagree).1

end SolidCommunity.ServerCore.Service
