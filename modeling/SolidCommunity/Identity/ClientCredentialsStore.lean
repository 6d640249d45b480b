import SolidCommunity.Foundations.Runs
import SolidCommunity.Foundations.Text
import SolidCommunity.Foundations.UniqueIndex

/-!
# Client Credentials

Tokens are stored by id, with a second map from labels to ids.  The index keeps one id per label, and
a deletion drops the label of the deleted token from it, whichever token the index names.  Every live
token stays reachable by its label exactly in the runs that never delete one of several tokens with
the same label.
-/

namespace SolidCommunity.Identity.ClientCredentialsStore

open Foundations.FiniteMap Foundations.Runs Foundations.Text Foundations.UniqueIndex

/-- A token with its secret. -/
structure ClientCredentials (Url : Type*) where
  id : Str
  label : Str
  webId : Url
  accountId : Str
  secret : Str
deriving DecidableEq

/-- The primary store and the secondary index from labels to token ids. -/
structure BaseClientCredentialsStore (Url : Type*) where
  byId : HashMap Str (ClientCredentials Url)
  byLabel : HashMap Str Str

namespace BaseClientCredentialsStore

variable {Url : Type*}

def new : BaseClientCredentialsStore Url := ⟨∅, ∅⟩

def get (store : BaseClientCredentialsStore Url) (id : Str) : Option (ClientCredentials Url) :=
  store.byId.lookup id

def findByLabel (store : BaseClientCredentialsStore Url) (label : Str) :
    Option (ClientCredentials Url) :=
  (store.byLabel.lookup label).bind store.byId.lookup

/-- The tokens of an account, in the order of a scan. -/
def findByAccount (order : Listing Str (ClientCredentials Url)) (accountId : Str) :
    List (ClientCredentials Url) :=
  (order.filter (·.2.accountId = accountId)).map (·.2)

/-- Create a token with the generated id and secret. -/
def create (store : BaseClientCredentialsStore Url) (label : Str) (webId : Url) (accountId : Str)
    (id secret : Str) : BaseClientCredentialsStore Url × ClientCredentials Url :=
  let creds : ClientCredentials Url := ⟨id, label, webId, accountId, secret⟩
  (⟨store.byId.insert id creds, store.byLabel.insert label id⟩, creds)

/-- Remove a token; an unknown id is an error. -/
def delete (store : BaseClientCredentialsStore Url) (id : Str) :
    BaseClientCredentialsStore Url × Except Str Unit :=
  match store.byId.lookup id with
  | some creds => (⟨store.byId.erase id, store.byLabel.erase creds.label⟩, .ok ())
  | none => (store, .error ("client credentials not found: ".toList ++ id))

end BaseClientCredentialsStore

open BaseClientCredentialsStore

/-! ## Runs -/

inductive StoreCall (Url : Type*) where
  | create (label : Str) (webId : Url) (accountId : Str) (id secret : Str)
  | delete (id : Str)

variable {Url : Type*}

/-- One call; a create draws a fresh id. -/
def callStep (store : BaseClientCredentialsStore Url) :
    StoreCall Url → Option (BaseClientCredentialsStore Url)
  | .create label webId accountId id secret =>
    if id ∈ store.byId then none else some (store.create label webId accountId id secret).1
  | .delete id => some (store.delete id).1

/-- A live token carries the label. -/
def Carries (store : BaseClientCredentialsStore Url) (token : ClientCredentials Url)
    (label : Str) : Prop :=
  store.get token.id = some token ∧ token.label = label

/-- Every label of a live token finds some live token that carries it. -/
def Complete (store : BaseClientCredentialsStore Url) : Prop :=
  ∀ id live, store.get id = some live →
    ∃ token, store.findByLabel live.label = some token ∧ Carries store token live.label

/-- A deletion does not remove a token whose label another live token carries. -/
def SoleCarrier (store : BaseClientCredentialsStore Url) : StoreCall Url → Prop
  | .create _ _ _ _ _ => True
  | .delete id => ∀ deleted, store.get id = some deleted →
    ∀ other live, other ≠ id → store.get other = some live → live.label ≠ deleted.label

/-- Tokens are stored under their own ids, and the index finds every live label. -/
structure Indexed (store : BaseClientCredentialsStore Url) : Prop where
  ids : ∀ id live, store.get id = some live → live.id = id
  complete : Complete store

theorem indexed_new : Indexed (new : BaseClientCredentialsStore Url) where
  ids id live h := by simp [BaseClientCredentialsStore.get, new] at h
  complete id live h := by simp [BaseClientCredentialsStore.get, new] at h

section Store

variable {store : BaseClientCredentialsStore Url}

theorem get_create (label : Str) (webId : Url) (accountId id secret other : Str) :
    (store.create label webId accountId id secret).1.get other =
      if other = id then some ⟨id, label, webId, accountId, secret⟩ else store.get other :=
  lookup_insert_eq_ite store.byId id other _

theorem findByLabel_create (label : Str) (webId : Url) (accountId id secret other : Str) :
    (store.create label webId accountId id secret).1.findByLabel other =
      if other = label then some ⟨id, label, webId, accountId, secret⟩
      else (store.byLabel.lookup other).bind (store.create label webId accountId id secret).1.get := by
  have hindex : (store.create label webId accountId id secret).1.byLabel.lookup other =
      if other = label then some id else store.byLabel.lookup other :=
    lookup_insert_eq_ite store.byLabel label other id
  rw [findByLabel, hindex]
  split
  · exact (get_create label webId accountId id secret id).trans (if_pos rfl)
  · rfl

theorem byId_delete (id : Str) : (store.delete id).1.byId = store.byId.erase id := by
  cases hdeleted : store.byId.lookup id with
  | some deleted => simp only [delete, hdeleted]
  | none =>
    simp only [delete, hdeleted]
    exact (erase_eq_self (Finmap.lookup_eq_none.mp hdeleted)).symm

theorem get_delete (id other : Str) :
    (store.delete id).1.get other = if other = id then none else store.get other := by
  rw [BaseClientCredentialsStore.get, byId_delete]
  exact lookup_erase_eq_ite store.byId id other

theorem delete_of_get_eq_none {id : Str} (h : store.get id = none) : (store.delete id).1 = store := by
  have hstored : store.byId.lookup id = none := h
  simp only [delete, hstored]

/-- What the index finds under a label after a token has been removed. -/
theorem findByLabel_delete {id : Str} {deleted : ClientCredentials Url}
    (hdeleted : store.get id = some deleted) (label : Str) :
    (store.delete id).1.findByLabel label =
      if label = deleted.label then none
      else (store.byLabel.lookup label).bind (store.delete id).1.get := by
  have hstored : store.byId.lookup id = some deleted := hdeleted
  have hindex : (store.delete id).1.byLabel.lookup label =
      if label = deleted.label then none else store.byLabel.lookup label := by
    simp only [delete, hstored]
    exact lookup_erase_eq_ite store.byLabel deleted.label label
  rw [findByLabel, hindex]
  split <;> rfl

/-- A create with a fresh id hides no token of another label. -/
theorem Indexed.create (h : Indexed store) (label : Str) (webId : Url) (accountId : Str) {id : Str}
    (hfresh : id ∉ store.byId) (secret : Str) :
    Indexed (store.create label webId accountId id secret).1 where
  ids := Keyed.insert h.ids rfl
  complete other live hlive := by
    have hself : Carries (store.create label webId accountId id secret).1
        ⟨id, label, webId, accountId, secret⟩ label :=
      ⟨by rw [get_create, if_pos rfl], rfl⟩
    by_cases hlabel : live.label = label
    · rw [hlabel, findByLabel_create, if_pos rfl]
      exact ⟨_, rfl, hself⟩
    · rw [get_create] at hlive
      split at hlive
      · obtain rfl := Option.some_inj.mp hlive
        exact absurd rfl hlabel
      · obtain ⟨token, hfound, hcarries⟩ := h.complete other live hlive
        obtain ⟨found, hindex, htoken⟩ := Option.bind_eq_some_iff.mp hfound
        have hkeep (kept : Str) (hkept : store.get kept = some token) :
            (store.create label webId accountId id secret).1.get kept = some token := by
          have hne : kept ≠ id := by
            rintro rfl
            exact hfresh (Finmap.mem_of_lookup_eq_some hkept)
          rw [get_create, if_neg hne, hkept]
        refine ⟨token, ?_, hkeep _ hcarries.1, hcarries.2⟩
        rw [findByLabel_create, if_neg hlabel, hindex]
        exact hkeep found htoken

/-- A deletion of the only carrier of its label hides no other token. -/
theorem Indexed.delete (h : Indexed store) {id : Str} (hsole : SoleCarrier store (.delete id)) :
    Indexed (store.delete id).1 where
  ids := by
    have hkeyed : Keyed ClientCredentials.id (store.byId.erase id) := Keyed.erase h.ids id
    rwa [← byId_delete] at hkeyed
  complete other live hlive := by
    rw [get_delete] at hlive
    split at hlive
    · simp at hlive
    · next hother =>
      cases hdeleted : store.get id with
      | none =>
        rw [delete_of_get_eq_none hdeleted]
        exact h.complete other live hlive
      | some deleted =>
        have hlabel := hsole deleted hdeleted other live hother hlive
        obtain ⟨token, hfound, hcarries⟩ := h.complete other live hlive
        obtain ⟨found, hindex, htoken⟩ := Option.bind_eq_some_iff.mp hfound
        have hkeep (kept : Str) (hkept : store.get kept = some token) :
            (store.delete id).1.get kept = some token := by
          have hne : kept ≠ id := by
            rintro rfl
            obtain rfl := Option.some_inj.mp (hkept.symm.trans hdeleted)
            exact hlabel hcarries.2.symm
          rw [get_delete, if_neg hne, hkept]
        refine ⟨token, ?_, hkeep _ hcarries.1, hcarries.2⟩
        rw [findByLabel_delete hdeleted, if_neg hlabel, hindex]
        exact hkeep found htoken

/-- A deletion of one of several carriers of a label makes the others unreachable. -/
theorem not_complete_delete {id : Str} (hsole : ¬ SoleCarrier store (.delete id)) :
    ¬ Complete (store.delete id).1 := by
  intro hcomplete
  refine hsole fun deleted hdeleted other live hother hlive hlabel ↦ ?_
  have hkept : (store.delete id).1.get other = some live := by
    rw [get_delete, if_neg hother, hlive]
  obtain ⟨token, hfound, -⟩ := hcomplete other live hkept
  rw [findByLabel_delete hdeleted, if_pos hlabel] at hfound
  simp at hfound

theorem Indexed.step (h : Indexed store) {call : StoreCall Url} (hsole : SoleCarrier store call)
    {next : BaseClientCredentialsStore Url} (hstep : callStep store call = some next) :
    Indexed next := by
  cases call with
  | create label webId accountId id secret =>
    simp only [callStep, Option.ite_none_left_eq_some, Option.some_inj] at hstep
    obtain ⟨hfresh, rfl⟩ := hstep
    exact h.create label webId accountId hfresh secret
  | delete id =>
    obtain rfl := Option.some_inj.mp hstep
    exact h.delete hsole

end Store

/-- The label index is complete throughout exactly the runs that never delete one of several tokens
with the same label. -/
theorem always_complete_iff (calls : List (StoreCall Url)) :
    Always callStep Complete new calls ↔ EveryStep callStep SoleCarrier new calls := by
  refine always_iff_everyStep callStep (fun _ h ↦ h.complete)
    (fun _ _ _ hstate hsole hstep ↦ hstate.step hsole hstep) ?_ indexed_new calls
  rintro store call - hsole
  cases call with
  | create => exact absurd trivial hsole
  | delete id => exact ⟨_, rfl, not_complete_delete hsole⟩

/-- Two accounts use the same label, and one of them deletes its token. -/
theorem exists_run_not_complete :
    ∃ store, run callStep (new : BaseClientCredentialsStore Unit)
        [.create ['l'] () ['a'] ['1'] [], .create ['l'] () ['b'] ['2'] [], .delete ['1']] =
          some store ∧
      ¬ Complete store := by
  refine ⟨_, rfl, fun hcomplete ↦ ?_⟩
  obtain ⟨token, hfound, -⟩ := hcomplete ['2'] ⟨['2'], ['l'], (), ['b'], []⟩ (by decide)
  exact Option.some_ne_none token (hfound.symm.trans (by decide))

end SolidCommunity.Identity.ClientCredentialsStore
