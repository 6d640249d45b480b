import SolidCommunity.Identity.PodStore

/-!
# Owner Entries and Their Pods

An owner entry names its pod by id.  A creation inserts both, but an update takes the id as it comes
and never looks into the pod table, so the entries refer to stored pods exactly in the runs whose
updates do.
-/

namespace SolidCommunity.Identity.PodStore

open Foundations.FiniteMap Foundations.Runs Foundations.Text Foundations.UniqueIndex BasePodStore

variable {Url : Type*}

/-- Whatever has owners is a stored pod. -/
def OwnersHavePods (store : BasePodStore Url) : Prop :=
  ∀ order, Enumerates order store.owners → ∀ id, (getOwners order id).isSome = true →
    (store.get id).isSome = true

/-- An update of an owner names a stored pod. -/
def UpdatesStoredPod (store : BasePodStore Url) : PodCall Url → Prop
  | .updateOwner id _ _ _ _ => id ∈ store.pods
  | _ => True

instance (store : BasePodStore Url) : ∀ call, Decidable (UpdatesStoredPod store call)
  | .updateOwner id _ _ _ _ => inferInstanceAs (Decidable (id ∈ store.pods))
  | .create _ _ _ _ _ | .removeOwner _ _ _ => inferInstanceAs (Decidable True)

/-- Every owner entry names a stored pod. -/
def EntriesHavePods (store : BasePodStore Url) : Prop :=
  ∀ key row, store.owners.lookup key = some row → row.podId ∈ store.pods

theorem isSome_getOwners_iff {store : BasePodStore Url} {order : Listing Str (OwnerRow Url)}
    (horder : Enumerates order store.owners) (id : Str) :
    (getOwners order id).isSome = true ↔
      ∃ key row, store.owners.lookup key = some row ∧ row.podId = id := by
  have hnonempty : (getOwners order id).isSome = true ↔ order.filter (·.2.podId = id) ≠ [] := by
    simp only [getOwners, List.isEmpty_iff, List.map_eq_nil_iff]
    split
    · next hnil => exact iff_of_false (by simp) (not_not.mpr hnil)
    · next hnil => exact iff_of_true rfl hnil
  rw [hnonempty]
  constructor
  · intro hne
    obtain ⟨entry, hentry⟩ := List.exists_mem_of_ne_nil _ hne
    obtain ⟨hmem, hpod⟩ := List.mem_filter.mp hentry
    exact ⟨entry.1, entry.2, horder.mem_iff.mp hmem, of_decide_eq_true hpod⟩
  · rintro ⟨key, row, hrow, hpod⟩
    have hmem : ⟨key, row⟩ ∈ order := horder.mem_iff.mpr hrow
    exact List.ne_nil_of_mem (List.mem_filter.mpr ⟨hmem, decide_eq_true hpod⟩)

theorem isSome_get_iff (store : BasePodStore Url) (id : Str) :
    (store.get id).isSome = true ↔ id ∈ store.pods := by
  rw [BasePodStore.get, Option.isSome_map, Finmap.lookup_isSome]

theorem ownersHavePods_iff (store : BasePodStore Url) :
    OwnersHavePods store ↔ EntriesHavePods store := by
  constructor
  · intro h key row hrow
    obtain ⟨order, horder⟩ := exists_enumerates store.owners
    rw [← isSome_get_iff]
    exact h order horder row.podId
      ((isSome_getOwners_iff horder row.podId).mpr ⟨key, row, hrow, rfl⟩)
  · intro h order horder id hsome
    obtain ⟨key, row, hrow, rfl⟩ := (isSome_getOwners_iff horder id).mp hsome
    exact (isSome_get_iff store row.podId).mpr (h key row hrow)

theorem entriesHavePods_new : EntriesHavePods (new : BasePodStore Url) := by
  intro key row hrow
  simp [new] at hrow

/-! ## Calls -/

section Calls

variable {store next : BasePodStore Url}

theorem EntriesHavePods.insertPod (h : EntriesHavePods store) (row : PodRow Url) :
    EntriesHavePods (store.insertPod row) :=
  fun key entry hentry ↦ Finmap.mem_insert.mpr (.inr (h key entry hentry))

theorem EntriesHavePods.insertOwner (h : EntriesHavePods store) {row : OwnerRow Url}
    (hpod : row.podId ∈ store.pods) : EntriesHavePods (store.insertOwner row) := by
  intro key entry hentry
  rcases lookup_insert_cases hentry with ⟨-, rfl⟩ | ⟨-, hentry⟩
  · exact hpod
  · exact h key entry hentry

theorem EntriesHavePods.create (h : EntriesHavePods store) (accountId : Str)
    (settings : PodSettings Url) (overwrite : Bool) (podId ownerId : Str) :
    EntriesHavePods (store.create accountId settings overwrite podId ownerId).1 := by
  have hpod := h.insertPod ⟨podId, settings.base, accountId⟩
  unfold BasePodStore.create
  cases settings.webId with
  | none => exact hpod
  | some webId => exact hpod.insertOwner (Finmap.mem_insert.mpr (.inl rfl))

variable [DecidableEq Url]

theorem EntriesHavePods.updateOwner (h : EntriesHavePods store)
    {order : Listing Str (OwnerRow Url)} (horder : Enumerates order store.owners) {id : Str}
    (hpod : id ∈ store.pods) (webId : Url) (visible : Bool) (ownerId : Str) :
    EntriesHavePods (store.updateOwner order id webId visible ownerId) := by
  unfold BasePodStore.updateOwner
  cases hfind : order.find? (isOwnerRow id webId ·.2) with
  | none => exact h.insertOwner hpod
  | some entry =>
    intro key row hrow
    rcases lookup_insert_cases hrow with ⟨-, rfl⟩ | ⟨-, hrow⟩
    · exact h entry.1 entry.2 (horder.of_find hfind).1
    · exact h key row hrow

/-- After an update the pod has an entry, whether it is stored or not. -/
theorem not_entriesHavePods_updateOwner {order : Listing Str (OwnerRow Url)}
    (horder : Enumerates order store.owners) {id : Str} (hpod : id ∉ store.pods) (webId : Url)
    (visible : Bool) (ownerId : Str) :
    ¬ EntriesHavePods (store.updateOwner order id webId visible ownerId) := by
  unfold BasePodStore.updateOwner
  cases hfind : order.find? (isOwnerRow id webId ·.2) with
  | none => exact fun h ↦ hpod (h ownerId _ (Finmap.lookup_insert _))
  | some entry =>
    have howner := (horder.of_find hfind).2
    have hid : entry.2.podId = id := by
      rw [isOwnerRow, Bool.and_eq_true] at howner
      exact of_decide_eq_true howner.1
    intro h
    have hmem : entry.2.podId ∈ store.pods :=
      h entry.1 { entry.2 with visible := visible } (Finmap.lookup_insert _)
    exact hpod (hid ▸ hmem)

theorem EntriesHavePods.removeOwner (h : EntriesHavePods store) (order : Listing Str (OwnerRow Url))
    (id : Str) (webId : Url) : EntriesHavePods (store.removeOwner order id webId) := by
  unfold BasePodStore.removeOwner
  cases order.find? (isOwnerRow id webId ·.2) with
  | none => exact h
  | some entry =>
    exact fun key row hrow ↦ h key row (lookup_of_erase hrow).2

theorem EntriesHavePods.callStep (h : EntriesHavePods store) {call : PodCall Url}
    (hcall : UpdatesStoredPod store call) (hstep : PodStore.callStep store call = some next) :
    EntriesHavePods next := by
  cases call with
  | create accountId settings overwrite podId ownerId =>
    obtain ⟨-, hnext⟩ := Option.ite_none_right_eq_some.mp hstep
    obtain rfl := Option.some_inj.mp hnext
    exact h.create accountId settings overwrite podId ownerId
  | updateOwner id webId visible order ownerId =>
    obtain ⟨⟨horder, -⟩, hnext⟩ := Option.ite_none_right_eq_some.mp hstep
    obtain rfl := Option.some_inj.mp hnext
    exact h.updateOwner horder hcall webId visible ownerId
  | removeOwner id webId order =>
    obtain ⟨-, hnext⟩ := Option.ite_none_right_eq_some.mp hstep
    obtain rfl := Option.some_inj.mp hnext
    exact h.removeOwner order id webId

/-- A call that does not name a stored pod leaves an entry without one. -/
theorem not_entriesHavePods_of_callStep {call : PodCall Url} (hcall : ¬ UpdatesStoredPod store call)
    (hstep : PodStore.callStep store call = some next) : ¬ EntriesHavePods next := by
  cases call with
  | updateOwner id webId visible order ownerId =>
    obtain ⟨⟨horder, -⟩, hnext⟩ := Option.ite_none_right_eq_some.mp hstep
    obtain rfl := Option.some_inj.mp hnext
    exact not_entriesHavePods_updateOwner horder hcall webId visible ownerId
  | create | removeOwner => exact absurd trivial hcall

/-- Whatever has owners is a stored pod, throughout exactly the runs whose updates name stored
pods. -/
theorem always_ownersHavePods_iff {calls : List (PodCall Url)} {final : BasePodStore Url}
    (hrun : run callStep new calls = some final) :
    Always callStep OwnersHavePods new calls ↔ EveryStep callStep UpdatesStoredPod new calls := by
  apply always_iff_everyStep_of_run callStep (fun store h ↦ (ownersHavePods_iff store).mpr h)
    (fun _ _ _ h hcall hstep ↦ h.callStep hcall hstep) ?_ entriesHavePods_new hrun
  intro store call next _ hcall hstep
  rw [ownersHavePods_iff]
  exact not_entriesHavePods_of_callStep hcall hstep

/-- A pod with two owners, one of which is removed again. -/
theorem always_ownersHavePods_known :
    Always callStep OwnersHavePods (new : BasePodStore ℕ)
      [.create ['a'] ⟨1, some 2⟩ false ['p'] ['o'],
        .updateOwner ['p'] 3 true [⟨['o'], ⟨['o'], ['p'], 2, false⟩⟩] ['q'],
        .removeOwner ['p'] 2
          [⟨['q'], ⟨['q'], ['p'], 3, true⟩⟩, ⟨['o'], ⟨['o'], ['p'], 2, false⟩⟩]] := by
  obtain ⟨final, hrun⟩ : ∃ final : BasePodStore ℕ, run callStep new
      [.create ['a'] ⟨1, some 2⟩ false ['p'] ['o'],
        .updateOwner ['p'] 3 true [⟨['o'], ⟨['o'], ['p'], 2, false⟩⟩] ['q'],
        .removeOwner ['p'] 2
          [⟨['q'], ⟨['q'], ['p'], 3, true⟩⟩, ⟨['o'], ⟨['o'], ['p'], 2, false⟩⟩]] = some final :=
    ⟨_, rfl⟩
  exact (always_ownersHavePods_iff hrun).mpr (by decide)

/-- An update of a pod that never existed. -/
theorem not_ownersHavePods_unknown :
    ∃ store : BasePodStore ℕ, run callStep new [.updateOwner ['p'] 3 true [] ['o']] = some store ∧
      ¬ OwnersHavePods store := by
  refine ⟨_, rfl, fun h ↦ ?_⟩
  exact absurd (h [⟨['o'], ⟨['o'], ['p'], 3, true⟩⟩] rfl ['p'] rfl) (by decide)

end Calls

end SolidCommunity.Identity.PodStore
