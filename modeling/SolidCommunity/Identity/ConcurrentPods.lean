import Mathlib.Data.Finset.Insert
import Mathlib.Logic.Function.Basic
import SolidCommunity.Identity.PodOwners

/-!
# Concurrent Pods

The pod table and the owner table each have their own lock.  A creation inserts the pod under the
first and its owner, later, under the second, and other clients run in between.  By then they can
have found the pod and made the same WebID an owner of it; unlike an update, a creation does not
look for such an entry before it inserts its own.
-/

namespace SolidCommunity.Identity.PodStore

open Foundations.FiniteMap Foundations.Runs Foundations.Text Foundations.UniqueIndex BasePodStore

/-- The tables, the creations that have inserted their pod but not yet its owner, and the pod ids
that some call has returned. -/
structure Configuration (Client Url : Type*) where
  store : BasePodStore Url
  pending : Client → Option (Str × Url)
  known : Finset Str

/-- One section of a call under a lock, with the id it generates and the order in which it scans. -/
inductive Action (Url : Type*) where
  | create (accountId : Str) (settings : PodSettings Url) (podId : Str)
  | insertOwner (ownerId : Str)
  | findPods (accountId : Str) (order : Listing Str (PodRow Url))
  | findByBaseUrl (baseUrl : Url) (order : Listing Str (PodRow Url))
  | updateOwner (id : Str) (webId : Url) (visible : Bool) (order : Listing Str (OwnerRow Url))
    (ownerId : Str)
  | removeOwner (id : Str) (webId : Url) (order : Listing Str (OwnerRow Url))

variable {Client Url : Type*}

/-- No client has called anything. -/
def Configuration.initial : Configuration Client Url := ⟨new, fun _ ↦ none, ∅⟩

/-- The entry that a creation inserts in its second section. -/
def firstOwner (ownerId podId : Str) (webId : Url) : OwnerRow Url := ⟨ownerId, podId, webId, false⟩

/-- The two sections of a creation that runs alone are the creation of the store. -/
theorem create_eq_sections (store : BasePodStore Url) (accountId : Str) (settings : PodSettings Url)
    (overwrite : Bool) (podId ownerId : Str) :
    (store.create accountId settings overwrite podId ownerId).1 =
      (settings.webId.elim id fun webId created ↦
          created.insertOwner (firstOwner ownerId podId webId))
        (store.insertPod ⟨podId, settings.base, accountId⟩) := by
  unfold BasePodStore.create
  cases settings.webId <;> rfl

section Steps

variable [DecidableEq Client] [DecidableEq Url]

/-- One section of one client.  A client in the middle of a creation can only finish it; generated
ids are fresh, a scan meets every row once, and owners are changed for known pods. -/
def sectionStep (config : Configuration Client Url) :
    Client × Action Url → Option (Configuration Client Url)
  | (client, .create accountId settings podId) =>
    if config.pending client = none ∧ FreshPod config.store podId then
      let created := config.store.insertPod ⟨podId, settings.base, accountId⟩
      match settings.webId with
      | some webId =>
        some { config with
          store := created
          pending := Function.update config.pending client (some (podId, webId)) }
      | none => some { config with store := created, known := insert podId config.known }
    else none
  | (client, .insertOwner ownerId) =>
    match config.pending client with
    | some (podId, webId) =>
      if ownerId ∉ config.store.owners then
        some
          { store := config.store.insertOwner (firstOwner ownerId podId webId)
            pending := Function.update config.pending client none
            known := insert podId config.known }
      else none
    | none => none
  | (client, .findPods accountId order) =>
    if config.pending client = none ∧ Enumerates order config.store.pods then
      some { config with
        known := config.known ∪ ((findPods order accountId).map PodInfo.id).toFinset }
    else none
  | (client, .findByBaseUrl baseUrl order) =>
    if config.pending client = none ∧ Enumerates order config.store.pods then
      some { config with
        known := config.known ∪ ((findByBaseUrl order baseUrl).map PodInfo.id).toFinset }
    else none
  | (client, .updateOwner id webId visible order ownerId) =>
    if config.pending client = none ∧ id ∈ config.known ∧ Enumerates order config.store.owners ∧
        ownerId ∉ config.store.owners then
      some { config with store := config.store.updateOwner order id webId visible ownerId }
    else none
  | (client, .removeOwner id webId order) =>
    if config.pending client = none ∧ id ∈ config.known ∧ Enumerates order config.store.owners then
      some { config with store := config.store.removeOwner order id webId }
    else none

end Steps

/-! ## Entries of the same WebID -/

/-- No two owner entries have the same pod and WebID. -/
def UniqueOwners (config : Configuration Client Url) : Prop :=
  Unique OwnerRow.index config.store.owners

/-- The second section of a creation finds no entry for its pod and WebID. -/
def OwnerIsNew (config : Configuration Client Url) : Client × Action Url → Prop
  | (client, .insertOwner _) =>
    ∀ pair ∈ config.pending client, Free OwnerRow.index config.store.owners pair
  | _ => True

instance [DecidableEq Url] (config : Configuration Client Url) :
    ∀ action, Decidable (OwnerIsNew config action)
  | (client, .insertOwner _) =>
    inferInstanceAs
      (Decidable (∀ pair ∈ config.pending client, Free OwnerRow.index config.store.owners pair))
  | (_, .create _ _ _) | (_, .findPods _ _) | (_, .findByBaseUrl _ _) | (_, .updateOwner _ _ _ _ _)
  | (_, .removeOwner _ _ _) => inferInstanceAs (Decidable True)

section Sections

variable [DecidableEq Client] [DecidableEq Url] {config next : Configuration Client Url}
  {client : Client}

/-- A section keeps the owner table indexed unless it inserts an entry that another one is for. -/
theorem ownersIndexed_of_sectionStep {action : Action Url} (h : OwnersIndexed config.store)
    (hnew : OwnerIsNew config (client, action))
    (hstep : sectionStep config (client, action) = some next) : OwnersIndexed next.store := by
  cases action with
  | create accountId settings podId =>
    obtain ⟨-, hnext⟩ := Option.ite_none_right_eq_some.mp hstep
    cases hwebId : settings.webId with
    | none =>
      rw [hwebId] at hnext
      obtain rfl := Option.some_inj.mp hnext
      exact ⟨h.keyed, h.unique⟩
    | some webId =>
      rw [hwebId] at hnext
      obtain rfl := Option.some_inj.mp hnext
      exact ⟨h.keyed, h.unique⟩
  | insertOwner ownerId =>
    cases hpending : config.pending client with
    | none => simp [sectionStep, hpending] at hstep
    | some pair =>
      simp only [sectionStep, hpending] at hstep
      obtain ⟨-, hnext⟩ := Option.ite_none_right_eq_some.mp hstep
      obtain rfl := Option.some_inj.mp hnext
      exact h.insertOwner (hnew pair hpending)
  | findPods accountId order =>
    obtain ⟨-, hnext⟩ := Option.ite_none_right_eq_some.mp hstep
    obtain rfl := Option.some_inj.mp hnext
    exact h
  | findByBaseUrl baseUrl order =>
    obtain ⟨-, hnext⟩ := Option.ite_none_right_eq_some.mp hstep
    obtain rfl := Option.some_inj.mp hnext
    exact h
  | updateOwner id webId visible order ownerId =>
    obtain ⟨⟨-, -, horder, -⟩, hnext⟩ := Option.ite_none_right_eq_some.mp hstep
    obtain rfl := Option.some_inj.mp hnext
    exact h.updateOwner horder id webId visible ownerId
  | removeOwner id webId order =>
    obtain ⟨-, hnext⟩ := Option.ite_none_right_eq_some.mp hstep
    obtain rfl := Option.some_inj.mp hnext
    exact h.removeOwner order id webId

/-- A creation whose entry is not new leaves two entries for its pod and WebID. -/
theorem not_uniqueOwners_of_sectionStep {action : Action Url}
    (hnew : ¬ OwnerIsNew config (client, action))
    (hstep : sectionStep config (client, action) = some next) : ¬ UniqueOwners next := by
  cases action with
  | insertOwner ownerId =>
    cases hpending : config.pending client with
    | none => simp [sectionStep, hpending] at hstep
    | some pair =>
      simp only [sectionStep, hpending] at hstep
      obtain ⟨hfresh, hnext⟩ := Option.ite_none_right_eq_some.mp hstep
      obtain rfl := Option.some_inj.mp hnext
      intro hunique
      have hfree : Free OwnerRow.index config.store.owners pair := hunique.free_of_insert hfresh
      apply hnew
      intro other hother
      rwa [← Option.some_inj.mp (hpending.symm.trans hother)]
  | _ => exact absurd trivial hnew

/-- The owner entries stay unique in exactly the runs in which every creation that inserts its owner
finds no entry for the same pod and WebID. -/
theorem always_uniqueOwners_iff {actions : List (Client × Action Url)}
    {final : Configuration Client Url} (hrun : run sectionStep .initial actions = some final) :
    Always sectionStep UniqueOwners .initial actions ↔
      EveryStep sectionStep OwnerIsNew .initial actions := by
  apply always_iff_everyStep_of_run sectionStep
    (fun config (h : OwnersIndexed config.store) ↦ h.unique)
    (fun _ _ _ h hnew hstep ↦ ownersIndexed_of_sectionStep h hnew hstep)
    (fun _ _ _ _ hnew hstep ↦ not_uniqueOwners_of_sectionStep hnew hstep) ownersIndexed_new hrun

/-- Another client finds the pod while it has no owner, and adds a second one once it has. -/
theorem always_uniqueOwners_interleaved :
    Always sectionStep UniqueOwners (.initial : Configuration ℕ ℕ)
      [(0, .create ['a'] ⟨1, some 2⟩ ['p']), (1, .findPods ['a'] [⟨['p'], ⟨['p'], 1, ['a']⟩⟩]),
        (0, .insertOwner ['o']),
        (1, .updateOwner ['p'] 3 true [⟨['o'], ⟨['o'], ['p'], 2, false⟩⟩] ['q'])] := by
  obtain ⟨final, hrun⟩ : ∃ final, run sectionStep (.initial : Configuration ℕ ℕ)
      [(0, .create ['a'] ⟨1, some 2⟩ ['p']), (1, .findPods ['a'] [⟨['p'], ⟨['p'], 1, ['a']⟩⟩]),
        (0, .insertOwner ['o']),
        (1, .updateOwner ['p'] 3 true [⟨['o'], ⟨['o'], ['p'], 2, false⟩⟩] ['q'])] = some final :=
    ⟨_, rfl⟩
  exact (always_uniqueOwners_iff hrun).mpr (by decide)

/-- Another client finds the pod while it has no owner, and makes its creator one. -/
theorem not_uniqueOwners_interleaved :
    ∃ final, run sectionStep (.initial : Configuration ℕ ℕ)
        [(0, .create ['a'] ⟨1, some 2⟩ ['p']), (1, .findPods ['a'] [⟨['p'], ⟨['p'], 1, ['a']⟩⟩]),
          (1, .updateOwner ['p'] 2 true [] ['q']), (0, .insertOwner ['o'])] = some final ∧
      ¬ UniqueOwners final := by
  refine ⟨_, rfl, fun h ↦ ?_⟩
  have hsame : ['o'] = ['q'] :=
    @h ['o'] ['q'] ⟨['o'], ['p'], 2, false⟩ ⟨['q'], ['p'], 2, true⟩ rfl rfl rfl
  exact absurd hsame (by decide)

end Sections

end SolidCommunity.Identity.PodStore
