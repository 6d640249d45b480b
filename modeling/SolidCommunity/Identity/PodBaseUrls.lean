import SolidCommunity.Identity.PodStore

/-!
# Base URLs of Pods

A pod is resolved by scanning the pod table for its base URL.  A creation never looks at the base
URLs that are taken, so the scan is well defined exactly when the creations named different ones.
-/

namespace SolidCommunity.Identity.PodStore

open Foundations.FiniteMap Foundations.Runs Foundations.Text Foundations.UniqueIndex BasePodStore

variable {Url : Type*}

/-- A creation that is not meant to overwrite, with the ids it generates. -/
structure Creation (Url : Type*) where
  accountId : Str
  settings : PodSettings Url
  podId : Str
  ownerId : Str

/-- The store and the result after a creation. -/
def Creation.apply (store : BasePodStore Url) (creation : Creation Url) :
    BasePodStore Url × Except Str Str :=
  store.create creation.accountId creation.settings false creation.podId creation.ownerId

/-- One creation; the generated ids are fresh. -/
def createStep (store : BasePodStore Url) (creation : Creation Url) : Option (BasePodStore Url) :=
  if FreshPod store creation.podId ∧ creation.ownerId ∉ store.owners then
    some (creation.apply store).1
  else none

/-- No two pods have the same base URL. -/
def OnePodPerUrl (store : BasePodStore Url) : Prop := Unique PodRow.baseUrl store.pods

/-- Resolving a base URL does not depend on the order of the scan. -/
def ResolvesUniquely [DecidableEq Url] (store : BasePodStore Url) : Prop :=
  ∀ order other, Enumerates order store.pods → Enumerates other store.pods →
    ∀ baseUrl, findByBaseUrl order baseUrl = findByBaseUrl other baseUrl

/-- A creation with a base URL that is taken fails and changes nothing. -/
def RejectsTaken (store : BasePodStore Url) (creation : Creation Url) : Prop :=
  ¬ Free PodRow.baseUrl store.pods creation.settings.base →
    (creation.apply store).1 = store ∧ ∃ error, (creation.apply store).2 = .error error

section Creations

variable {store next final : BasePodStore Url} {creation : Creation Url}
  {creations : List (Creation Url)}

theorem OnePodPerUrl.resolvesUniquely [DecidableEq Url] (h : OnePodPerUrl store) :
    ResolvesUniquely store := by
  intro order other horder hother baseUrl
  have haccepts (row : PodRow Url) : decide (row.baseUrl = baseUrl) = true ↔ row.baseUrl = baseUrl :=
    decide_eq_true_iff
  exact congrArg (Option.map _) (Unique.find_eq h horder hother haccepts)

/-- Every creation inserts its pod. -/
theorem pods_apply (store : BasePodStore Url) (creation : Creation Url) :
    (creation.apply store).1.pods =
      store.pods.insert creation.podId
        ⟨creation.podId, creation.settings.base, creation.accountId⟩ := by
  unfold Creation.apply BasePodStore.create
  cases creation.settings.webId <;> rfl

theorem result_apply (store : BasePodStore Url) (creation : Creation Url) :
    (creation.apply store).2 = .ok creation.podId := by
  unfold Creation.apply BasePodStore.create
  cases creation.settings.webId <;> rfl

theorem rejectsTaken_iff (store : BasePodStore Url) (creation : Creation Url) :
    RejectsTaken store creation ↔ Free PodRow.baseUrl store.pods creation.settings.base := by
  constructor
  · intro h
    by_contra htaken
    obtain ⟨-, error, herror⟩ := h htaken
    rw [result_apply] at herror
    exact absurd herror (by simp)
  · exact fun hfree htaken ↦ absurd hfree htaken

/-- The base URLs that are taken are those of the creations so far, and the creations so far named
different ones exactly when no two pods share one. -/
structure Registers (past : List (Creation Url)) (store : BasePodStore Url) : Prop where
  taken : ∀ baseUrl, Free PodRow.baseUrl store.pods baseUrl ↔
    baseUrl ∉ past.map (·.settings.base)
  unique : OnePodPerUrl store ↔ (past.map (·.settings.base)).Nodup

theorem registers_new : Registers [] (new : BasePodStore Url) where
  taken baseUrl := by
    apply iff_of_true
    · intro key row hrow
      simp [new] at hrow
    · simp
  unique := iff_of_true unique_empty List.nodup_nil

theorem free_apply_iff (hfresh : creation.podId ∉ store.pods) (baseUrl : Url) :
    Free PodRow.baseUrl (creation.apply store).1.pods baseUrl ↔
      Free PodRow.baseUrl store.pods baseUrl ∧ creation.settings.base ≠ baseUrl := by
  rw [pods_apply]
  constructor
  · intro h
    exact ⟨fun key row hrow ↦ h key row (lookup_insert_of_notMem hfresh hrow),
      h creation.podId _ (Finmap.lookup_insert _)⟩
  · rintro ⟨hfree, hne⟩ key row hrow
    rcases lookup_insert_cases hrow with ⟨-, rfl⟩ | ⟨-, hrow⟩
    · exact hne
    · exact hfree key row hrow

theorem onePodPerUrl_apply_iff (hfresh : creation.podId ∉ store.pods) :
    OnePodPerUrl (creation.apply store).1 ↔
      OnePodPerUrl store ∧ Free PodRow.baseUrl store.pods creation.settings.base := by
  unfold OnePodPerUrl
  rw [pods_apply]
  exact unique_insert_iff hfresh

theorem Registers.createStep {past : List (Creation Url)} (h : Registers past store)
    (hstep : PodStore.createStep store creation = some next) :
    Registers (past ++ [creation]) next := by
  obtain ⟨⟨hpod, -⟩, hnext⟩ := Option.ite_none_right_eq_some.mp hstep
  obtain rfl := Option.some_inj.mp hnext
  constructor
  · intro baseUrl
    rw [free_apply_iff hpod.1, h.taken, List.map_append, List.mem_append]
    simp [eq_comm]
  · rw [onePodPerUrl_apply_iff hpod.1, h.unique, h.taken, List.map_append, List.map_singleton,
      List.nodup_append_comm, List.singleton_append, List.nodup_cons, and_comm]

theorem registers_of_run (hrun : run createStep new creations = some final) :
    Registers creations final :=
  invariant_of_history createStep Registers (fun _ _ _ _ h hstep ↦ h.createStep hstep) registers_new
    hrun

/-- Creations of different base URLs never meet one that is taken. -/
theorem Registers.everyStep_rejectsTaken {past : List (Creation Url)} (h : Registers past store)
    (hdistinct : ((past ++ creations).map (·.settings.base)).Nodup) :
    EveryStep PodStore.createStep RejectsTaken store creations := by
  induction creations generalizing past store with
  | nil => trivial
  | cons creation creations ih =>
    constructor
    · rw [rejectsTaken_iff, h.taken]
      rw [List.map_append, List.nodup_append] at hdistinct
      intro hmem
      exact hdistinct.2.2 _ hmem _ List.mem_cons_self rfl
    · intro next hstep
      apply ih (h.createStep hstep)
      rwa [← List.append_cons]

/-- After every sequence of creations the base URLs are unique, resolution does not depend on the
order, and every creation for a base URL that was taken failed without an effect, exactly when the
creations named different base URLs. -/
theorem onePodPerUrl_iff [DecidableEq Url] (hrun : run createStep new creations = some final) :
    (OnePodPerUrl final ∧ ResolvesUniquely final ∧
        EveryStep createStep RejectsTaken new creations) ↔
      (creations.map (·.settings.base)).Nodup := by
  have hunique := (registers_of_run hrun).unique
  constructor
  · exact fun h ↦ hunique.mp h.1
  · intro hdistinct
    have honePod := hunique.mpr hdistinct
    exact ⟨honePod, honePod.resolvesUniquely, registers_new.everyStep_rejectsTaken hdistinct⟩

/-- Two creations by one account. -/
theorem onePodPerUrl_distinct :
    ∃ final : BasePodStore ℕ, run createStep new
        [⟨['a'], ⟨1, none⟩, ['p'], ['o']⟩, ⟨['a'], ⟨2, some 5⟩, ['q'], ['o']⟩] = some final ∧
      OnePodPerUrl final ∧ ResolvesUniquely final := by
  obtain ⟨final, hrun⟩ : ∃ final : BasePodStore ℕ, run createStep new
      [⟨['a'], ⟨1, none⟩, ['p'], ['o']⟩, ⟨['a'], ⟨2, some 5⟩, ['q'], ['o']⟩] = some final := ⟨_, rfl⟩
  obtain ⟨honePod, hresolves, -⟩ := (onePodPerUrl_iff hrun).mpr (by decide)
  exact ⟨final, hrun, honePod, hresolves⟩

/-- Two accounts create a pod with the same base URL. -/
theorem not_onePodPerUrl :
    ∃ final : BasePodStore ℕ, run createStep new
        [⟨['a'], ⟨1, none⟩, ['p'], ['o']⟩, ⟨['b'], ⟨1, none⟩, ['q'], ['o']⟩] = some final ∧
      ¬ OnePodPerUrl final ∧ ¬ ResolvesUniquely final := by
  refine ⟨_, rfl, fun h ↦ ?_, fun h ↦ ?_⟩
  · have hsame : ['p'] = ['q'] := @h ['p'] ['q'] ⟨['p'], 1, ['a']⟩ ⟨['q'], 1, ['b']⟩ rfl rfl rfl
    exact absurd hsame (by decide)
  · have hsame := h [⟨['p'], ⟨['p'], 1, ['a']⟩⟩, ⟨['q'], ⟨['q'], 1, ['b']⟩⟩]
      [⟨['q'], ⟨['q'], 1, ['b']⟩⟩, ⟨['p'], ⟨['p'], 1, ['a']⟩⟩] (by decide) (by decide) 1
    exact absurd hsame (by decide)

end Creations

end SolidCommunity.Identity.PodStore
