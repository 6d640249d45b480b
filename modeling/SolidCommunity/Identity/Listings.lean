import SolidCommunity.Foundations.Registry
import SolidCommunity.Identity.ClientCredentialsStore
import SolidCommunity.Identity.PodStore
import SolidCommunity.Identity.WebIdStore

/-!
# Listings by Account

The WebID links, the client credentials and the pods are registries: their rows are stored under
generated ids and looked for by scans.  After every run the scans list what was created for an
account and not removed since, each row once, in whatever order the table is iterated.
-/

namespace SolidCommunity.Identity

open Foundations.FiniteMap Foundations.Runs Foundations.Text Foundations.UniqueIndex

variable {Url : Type*}

/-! ## WebID links -/

namespace WebIdStore

open BaseWebIdStore

/-- What a call does to the links. -/
def StoreCall.change : StoreCall Url → Option (Change Str (WebIdLink Url))
  | .create webId accountId id => some (.insert ⟨id, webId, accountId⟩)
  | .delete linkId => some (.remove linkId)

/-- The links that the calls have created and not deleted since. -/
def links (calls : List (StoreCall Url)) : List (WebIdLink Url) :=
  registered WebIdLink.id (calls.filterMap StoreCall.change)

variable {calls : List (StoreCall Url)} {store : BaseWebIdStore Url}

theorem registers_links (hrun : run callStep new calls = some store) :
    Registers WebIdLink.id (links calls) store.links := by
  apply registers_of_run WebIdLink.id BaseWebIdStore.links StoreCall.change ?_ rfl hrun
  intro store call next rows hstep h
  cases call with
  | create webId accountId id =>
    obtain ⟨hfresh, hnext⟩ := Option.ite_none_left_eq_some.mp hstep
    obtain rfl := Option.some_inj.mp hnext
    have hinserted : Registers WebIdLink.id (rows ++ [⟨id, webId, accountId⟩])
        (store.links.insert id ⟨id, webId, accountId⟩) := h.insert hfresh
    exact hinserted
  | delete linkId =>
    obtain rfl := Option.some_inj.mp hstep
    rw [links_delete]
    exact h.remove linkId

/-- After every run, the links of an account are those that were created for it and not deleted
since, each listed once, and a pair is linked when one of them is for it. -/
theorem findByAccount_of_run [DecidableEq Url] (hrun : run callStep new calls = some store)
    {order : Listing Str (WebIdLink Url)} (horder : Enumerates order store.links)
    (accountId : Str) :
    (findByAccount order accountId).Perm ((links calls).filter (·.accountId = accountId)) ∧
      (∀ webId, isLinked order webId accountId = true ↔
        ∃ link ∈ links calls, link.webId = webId ∧ link.accountId = accountId) ∧
      ∀ linkId, store.get linkId = (links calls).find? (·.id = linkId) := by
  have hregisters := registers_links hrun
  have hperm : (findByAccount order accountId).Perm
      ((links calls).filter (·.accountId = accountId)) :=
    hregisters.perm_filter horder fun link ↦ link.accountId = accountId
  refine ⟨hperm, fun webId ↦ ?_, hregisters.lookup_eq⟩
  rw [isLinked_iff]
  apply exists_congr
  intro link
  rw [hperm.mem_iff, List.mem_filter, decide_eq_true_iff, and_assoc,
    and_comm (a := link.accountId = accountId)]

/-- Of three links one is deleted. -/
theorem findByAccount_of_run_deleted :
    ∃ store : BaseWebIdStore ℕ,
      run callStep new [.create 1 ['a'] ['x'], .create 2 ['a'] ['y'], .create 3 ['b'] ['z'],
        .delete ['x']] = some store ∧
      ∀ order, Enumerates order store.links →
        (findByAccount order ['a']).Perm [⟨['y'], 2, ['a']⟩] := by
  obtain ⟨store, hrun⟩ : ∃ store : BaseWebIdStore ℕ,
      run callStep new [.create 1 ['a'] ['x'], .create 2 ['a'] ['y'], .create 3 ['b'] ['z'],
        .delete ['x']] = some store := ⟨_, rfl⟩
  exact ⟨store, hrun, fun order horder ↦ (findByAccount_of_run hrun horder ['a']).1⟩

end WebIdStore

/-! ## Client credentials -/

namespace ClientCredentialsStore

open BaseClientCredentialsStore

/-- What a call does to the tokens. -/
def StoreCall.change : StoreCall Url → Option (Change Str (ClientCredentials Url))
  | .create label webId accountId id secret => some (.insert ⟨id, label, webId, accountId, secret⟩)
  | .delete id => some (.remove id)

/-- The tokens that the calls have created and not deleted since. -/
def tokens (calls : List (StoreCall Url)) : List (ClientCredentials Url) :=
  registered ClientCredentials.id (calls.filterMap StoreCall.change)

variable {calls : List (StoreCall Url)} {store : BaseClientCredentialsStore Url}

theorem registers_tokens (hrun : run callStep new calls = some store) :
    Registers ClientCredentials.id (tokens calls) store.byId := by
  apply registers_of_run ClientCredentials.id BaseClientCredentialsStore.byId StoreCall.change ?_ rfl hrun
  intro store call next rows hstep h
  cases call with
  | create label webId accountId id secret =>
    obtain ⟨hfresh, hnext⟩ := Option.ite_none_left_eq_some.mp hstep
    obtain rfl := Option.some_inj.mp hnext
    have hinserted : Registers ClientCredentials.id
        (rows ++ [⟨id, label, webId, accountId, secret⟩])
        (store.byId.insert id ⟨id, label, webId, accountId, secret⟩) := h.insert hfresh
    exact hinserted
  | delete id =>
    obtain rfl := Option.some_inj.mp hstep
    rw [byId_delete]
    exact h.remove id

/-- After every run, whatever labels were used twice, the tokens of an account are those that were
created for it and not deleted since, each listed once and found by its id. -/
theorem findByAccount_of_calls (hrun : run callStep new calls = some store)
    {order : Listing Str (ClientCredentials Url)} (horder : Enumerates order store.byId)
    (accountId : Str) :
    (findByAccount order accountId).Perm ((tokens calls).filter (·.accountId = accountId)) ∧
      ∀ id, store.get id = (tokens calls).find? (·.id = id) := by
  have hregisters := registers_tokens hrun
  exact ⟨hregisters.perm_filter horder fun token ↦ token.accountId = accountId,
    hregisters.lookup_eq⟩

/-- Two tokens with one label, the second of which is deleted. -/
theorem findByAccount_of_calls_labelled :
    ∃ store : BaseClientCredentialsStore ℕ,
      run callStep new [.create ['l'] 1 ['a'] ['x'] ['s'], .create ['l'] 1 ['a'] ['y'] ['t'],
        .delete ['y']] = some store ∧
      ∀ order, Enumerates order store.byId →
        (findByAccount order ['a']).Perm [⟨['x'], ['l'], 1, ['a'], ['s']⟩] := by
  obtain ⟨store, hrun⟩ : ∃ store : BaseClientCredentialsStore ℕ,
      run callStep new [.create ['l'] 1 ['a'] ['x'] ['s'], .create ['l'] 1 ['a'] ['y'] ['t'],
        .delete ['y']] = some store := ⟨_, rfl⟩
  exact ⟨store, hrun, fun order horder ↦ (findByAccount_of_calls hrun horder ['a']).1⟩

end ClientCredentialsStore

/-! ## Pods -/

namespace PodStore

open BasePodStore

/-- The pod that a call inserts. -/
def PodCall.pod : PodCall Url → Option (PodRow Url)
  | .create accountId settings _ podId _ => some ⟨podId, settings.base, accountId⟩
  | .updateOwner .. | .removeOwner .. => none

/-- The pods that the calls have created, in order. -/
def createdPods (calls : List (PodCall Url)) : List (PodRow Url) :=
  calls.filterMap PodCall.pod

variable [DecidableEq Url] {calls : List (PodCall Url)} {store : BasePodStore Url}

/-- A call inserts its pod, and leaves the other pods alone. -/
theorem pods_callStep {call : PodCall Url} {next : BasePodStore Url}
    (hstep : callStep store call = some next) :
    (∃ row, call.pod = some row ∧ row.id ∉ store.pods ∧
        next.pods = store.pods.insert row.id row) ∨
      call.pod = none ∧ next.pods = store.pods := by
  cases call with
  | create accountId settings overwrite podId ownerId =>
    obtain ⟨⟨hfresh, -⟩, hnext⟩ := Option.ite_none_right_eq_some.mp hstep
    refine .inl ⟨⟨podId, settings.base, accountId⟩, rfl, hfresh.1, ?_⟩
    rw [← Option.some_inj.mp hnext]
    unfold BasePodStore.create
    cases settings.webId <;> rfl
  | updateOwner id webId visible order ownerId =>
    obtain ⟨-, hnext⟩ := Option.ite_none_right_eq_some.mp hstep
    refine .inr ⟨rfl, ?_⟩
    rw [← Option.some_inj.mp hnext]
    unfold BasePodStore.updateOwner
    cases order.find? (isOwnerRow id webId ·.2) <;> rfl
  | removeOwner id webId order =>
    obtain ⟨-, hnext⟩ := Option.ite_none_right_eq_some.mp hstep
    refine .inr ⟨rfl, ?_⟩
    rw [← Option.some_inj.mp hnext]
    unfold BasePodStore.removeOwner
    cases order.find? (isOwnerRow id webId ·.2) <;> rfl

theorem registers_createdPods (hrun : run callStep new calls = some store) :
    Foundations.UniqueIndex.Registers PodRow.id (createdPods calls) store.pods := by
  have hregisters : Foundations.UniqueIndex.Registers PodRow.id
      (registered PodRow.id (calls.filterMap fun call ↦ call.pod.map .insert)) store.pods := by
    apply Foundations.UniqueIndex.registers_of_run PodRow.id BasePodStore.pods
      (fun call : PodCall Url ↦ call.pod.map .insert) ?_ rfl hrun
    intro store call next rows hstep h
    rcases pods_callStep hstep with ⟨row, hpod, hfresh, hpods⟩ | ⟨hpod, hpods⟩
    · rw [hpod, hpods]
      exact h.insert hfresh
    · rw [hpod, hpods]
      exact h
  rwa [← List.map_filterMap, registered_map_insert] at hregisters

/-- After every run, the pods of an account are those that were created for it, each listed once; a
pod is found by its id, and a base URL is resolved to one of the pods that were created for it when
there is one. -/
theorem findPods_of_run (hrun : run callStep new calls = some store)
    {order : Listing Str (PodRow Url)} (horder : Enumerates order store.pods) :
    (∀ accountId, (findPods order accountId).Perm
        (((createdPods calls).filter (·.accountId = accountId)).map PodRow.info)) ∧
      (∀ id, store.get id = ((createdPods calls).find? (·.id = id)).map PodRow.info) ∧
      ∀ baseUrl,
        (∀ info, findByBaseUrl order baseUrl = some info →
          ∃ row ∈ createdPods calls, row.baseUrl = baseUrl ∧ row.info = info) ∧
        ((findByBaseUrl order baseUrl).isSome = true ↔
          ∃ row ∈ createdPods calls, row.baseUrl = baseUrl) := by
  have hregisters := registers_createdPods hrun
  refine ⟨fun accountId ↦ ?_, fun id ↦ ?_, fun baseUrl ↦ ⟨fun info hinfo ↦ ?_, ?_⟩⟩
  · have hrows := hregisters.perm_filter horder fun row ↦ row.accountId = accountId
    have hscan : findPods order accountId =
        ((order.filter (·.2.accountId = accountId)).map (·.2)).map PodRow.info := by
      rw [List.map_map]
      rfl
    rw [hscan]
    exact hrows.map PodRow.info
  · rw [BasePodStore.get, hregisters.lookup_eq]
  · obtain ⟨entry, hfind, hentry⟩ := Option.map_eq_some_iff.mp hinfo
    obtain ⟨hmem, hbaseUrl⟩ := hregisters.mem_of_find horder (fun row ↦ row.baseUrl = baseUrl) hfind
    exact ⟨entry.2, hmem, of_decide_eq_true hbaseUrl, hentry⟩
  · rw [findByBaseUrl, Option.isSome_map,
      hregisters.isSome_find_iff horder fun row ↦ row.baseUrl = baseUrl]
    simp only [decide_eq_true_iff]

/-- A pod whose owner is removed is still the pod of its account. -/
theorem findPods_of_run_removed :
    ∃ store : BasePodStore ℕ,
      run callStep new [.create ['a'] ⟨1, some 2⟩ false ['p'] ['o'],
        .removeOwner ['p'] 2 [⟨['o'], ⟨['o'], ['p'], 2, false⟩⟩]] = some store ∧
      ∀ order, Enumerates order store.pods →
        (findPods order ['a']).Perm [⟨['p'], 1, ['a']⟩] := by
  obtain ⟨store, hrun⟩ : ∃ store : BasePodStore ℕ,
      run callStep new [.create ['a'] ⟨1, some 2⟩ false ['p'] ['o'],
        .removeOwner ['p'] 2 [⟨['o'], ⟨['o'], ['p'], 2, false⟩⟩]] = some store := ⟨_, rfl⟩
  exact ⟨store, hrun, fun order horder ↦ (findPods_of_run hrun horder).1 ['a']⟩

end PodStore

end SolidCommunity.Identity
