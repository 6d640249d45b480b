import SolidCommunity.Identity.PodStore

/-!
# The Owners of a Pod

The owner table is a map from pods and WebIDs to visibilities in disguise.  As long as no two
entries have the same pod and WebID, the entry that a scan finds is the only one, so every call does
to the map what its name says, and an owner list is the part of the map that belongs to its pod.
-/

namespace SolidCommunity.Identity.PodStore

open Foundations.FiniteMap Foundations.Runs Foundations.Text Foundations.UniqueIndex BasePodStore

variable {Url : Type*}

/-- Every owner entry is stored under its own id, and no other entry has its pod and WebID. -/
structure OwnersIndexed (store : BasePodStore Url) : Prop where
  keyed : ∀ id row, store.owners.lookup id = some row → row.id = id
  unique : Unique OwnerRow.index store.owners

/-- Some entry makes the WebID an owner of the pod, with the given visibility. -/
def Owns (store : BasePodStore Url) (podId : Str) (webId : Url) (visible : Bool) : Prop :=
  ∃ id row, store.owners.lookup id = some row ∧ row.index = (podId, webId) ∧ row.visible = visible

theorem ownersIndexed_new : OwnersIndexed (new : BasePodStore Url) where
  keyed := keyed_empty
  unique := unique_empty

theorem not_owns_new (podId : Str) (webId : Url) (visible : Bool) :
    ¬ Owns (new : BasePodStore Url) podId webId visible := by
  rintro ⟨id, row, hrow, -⟩
  simp [new] at hrow

/-! ## New entries -/

section Insertion

variable {store : BasePodStore Url} {row : OwnerRow Url}

/-- A new entry for a pod and a WebID that had none. -/
theorem OwnersIndexed.insertOwner (h : OwnersIndexed store)
    (hfree : Free OwnerRow.index store.owners row.index) :
    OwnersIndexed (store.insertOwner row) where
  keyed := Keyed.insert h.keyed rfl
  unique := h.unique.insert hfree

theorem owns_insertOwner (hfresh : row.id ∉ store.owners) (podId : Str) (webId : Url)
    (visible : Bool) :
    Owns (store.insertOwner row) podId webId visible ↔
      (row.index = (podId, webId) ∧ row.visible = visible) ∨ Owns store podId webId visible := by
  constructor
  · rintro ⟨id, other, hother, hindex, hvisible⟩
    rcases lookup_insert_cases hother with ⟨-, rfl⟩ | ⟨-, hother⟩
    · exact .inl ⟨hindex, hvisible⟩
    · exact .inr ⟨id, other, hother, hindex, hvisible⟩
  · rintro (⟨hindex, hvisible⟩ | ⟨id, other, hother, hindex, hvisible⟩)
    · exact ⟨row.id, row, Finmap.lookup_insert _, hindex, hvisible⟩
    · exact ⟨id, other, lookup_insert_of_notMem hfresh hother, hindex, hvisible⟩

/-- A pod id that occurs nowhere has no owner entry. -/
theorem FreshPod.free {podId : Str} (h : FreshPod store podId) (webId : Url) :
    Free OwnerRow.index store.owners (podId, webId) := by
  intro id other hother hindex
  exact h.2 ⟨id, other⟩ (lookup_eq_some_iff_mem_entries.mp hother) (congrArg Prod.fst hindex)

theorem OwnersIndexed.create (h : OwnersIndexed store) {podId : Str} (hfresh : FreshPod store podId)
    (accountId : Str) (settings : PodSettings Url) (overwrite : Bool) (ownerId : Str) :
    OwnersIndexed (store.create accountId settings overwrite podId ownerId).1 := by
  have hpod : OwnersIndexed (store.insertPod ⟨podId, settings.base, accountId⟩) :=
    ⟨h.keyed, h.unique⟩
  unfold BasePodStore.create
  cases settings.webId with
  | none => exact hpod
  | some webId => exact hpod.insertOwner (hfresh.free webId)

theorem owns_create {ownerId : Str} (hfresh : ownerId ∉ store.owners) (accountId : Str)
    (settings : PodSettings Url) (overwrite : Bool) (podId other : Str) (webId : Url)
    (visible : Bool) :
    Owns (store.create accountId settings overwrite podId ownerId).1 other webId visible ↔
      (settings.webId = some webId ∧ podId = other ∧ visible = false) ∨
        Owns store other webId visible := by
  unfold BasePodStore.create
  cases settings.webId with
  | none => simp [Owns, insertPod]
  | some first =>
    have hpod : Owns (store.insertPod ⟨podId, settings.base, accountId⟩) other webId visible ↔
        Owns store other webId visible := Iff.rfl
    change Owns ((store.insertPod _).insertOwner ⟨ownerId, podId, first, false⟩) other webId visible ↔
      _
    rw [owns_insertOwner hfresh, hpod]
    apply or_congr_left
    constructor
    · rintro ⟨hindex, rfl⟩
      obtain ⟨rfl, rfl⟩ := Prod.mk.inj hindex
      exact ⟨rfl, rfl, rfl⟩
    · rintro ⟨hfirst, rfl, rfl⟩
      obtain rfl := Option.some_inj.mp hfirst
      exact ⟨rfl, rfl⟩

end Insertion

/-! ## Calls -/

section Calls

variable [DecidableEq Url] {store : BasePodStore Url} {order : Listing Str (OwnerRow Url)}
  {entry : Sigma fun _ : Str ↦ OwnerRow Url} {id : Str} {webId : Url}

theorem isOwnerRow_iff (id : Str) (webId : Url) (row : OwnerRow Url) :
    isOwnerRow id webId row = true ↔ row.index = (id, webId) := by
  simp [isOwnerRow, OwnerRow.index]

/-- A scan that finds nothing has met no entry of the pod and the WebID. -/
theorem free_of_find_eq_none (horder : Enumerates order store.owners)
    (hfind : order.find? (isOwnerRow id webId ·.2) = none) :
    Free OwnerRow.index store.owners (id, webId) := by
  intro key row hrow hindex
  have hrejected := horder.find_eq_none_iff.mp hfind key row hrow
  rw [(isOwnerRow_iff id webId row).mpr hindex] at hrejected
  exact Bool.noConfusion hrejected

/-- What a scan finds is an entry of the pod and the WebID. -/
theorem lookup_of_find (horder : Enumerates order store.owners)
    (hfind : order.find? (isOwnerRow id webId ·.2) = some entry) :
    store.owners.lookup entry.1 = some entry.2 ∧ entry.2.index = (id, webId) := by
  rw [← isOwnerRow_iff]
  exact horder.of_find hfind

theorem OwnersIndexed.updateOwner (h : OwnersIndexed store) (horder : Enumerates order store.owners)
    (id : Str) (webId : Url) (visible : Bool) (ownerId : Str) :
    OwnersIndexed (store.updateOwner order id webId visible ownerId) := by
  unfold BasePodStore.updateOwner
  cases hfind : order.find? (isOwnerRow id webId ·.2) with
  | none => exact h.insertOwner (free_of_find_eq_none horder hfind)
  | some entry =>
    obtain ⟨hentry, -⟩ := lookup_of_find horder hfind
    constructor
    · exact Keyed.insert h.keyed (h.keyed entry.1 entry.2 hentry)
    · exact h.unique.replace hentry rfl

/-- After an update the WebID owns the pod with the new visibility, and nothing else changed. -/
theorem owns_updateOwner (h : OwnersIndexed store) (horder : Enumerates order store.owners)
    {ownerId : Str} (hfresh : ownerId ∉ store.owners) (id : Str) (webId : Url) (visible : Bool)
    (other : Str) (webId' : Url) (visible' : Bool) :
    Owns (store.updateOwner order id webId visible ownerId) other webId' visible' ↔
      if (id, webId) = (other, webId') then visible = visible'
      else Owns store other webId' visible' := by
  unfold BasePodStore.updateOwner
  cases hfind : order.find? (isOwnerRow id webId ·.2) with
  | none =>
    have hfree := free_of_find_eq_none horder hfind
    simp only
    rw [owns_insertOwner hfresh]
    split
    · next hpair =>
      constructor
      · rintro (⟨-, hvisible⟩ | ⟨key, row, hrow, hindex, -⟩)
        · exact hvisible
        · exact absurd (hindex.trans hpair.symm) (hfree key row hrow)
      · exact fun hvisible ↦ .inl ⟨hpair, hvisible⟩
    · next hpair => exact or_iff_right fun hnew ↦ hpair hnew.1
  | some entry =>
    obtain ⟨hentry, hindex⟩ := lookup_of_find horder hfind
    have hindex' : OwnerRow.index { entry.2 with visible := visible } = (id, webId) := hindex
    simp only
    constructor
    · rintro ⟨key, row, hrow, hrowIndex, hvisible⟩
      rcases lookup_insert_cases hrow with ⟨-, rfl⟩ | ⟨hkey, hrow⟩
      · rw [if_pos (hindex'.symm.trans hrowIndex)]
        exact hvisible
      · rw [ne_eq, h.unique.key_eq_iff hrow hentry, hrowIndex, hindex, eq_comm] at hkey
        rw [if_neg hkey]
        exact ⟨key, row, hrow, hrowIndex, hvisible⟩
    · split
      · next hpair =>
        exact fun hvisible ↦ ⟨entry.1, _, Finmap.lookup_insert _, hindex'.trans hpair, hvisible⟩
      · next hpair =>
        rintro ⟨key, row, hrow, hrowIndex, hvisible⟩
        have hkey : key ≠ entry.1 := by
          rw [ne_eq, h.unique.key_eq_iff hrow hentry, hrowIndex, hindex, eq_comm]
          exact hpair
        refine ⟨key, row, ?_, hrowIndex, hvisible⟩
        rw [lookup_insert_eq_ite, if_neg hkey, hrow]

theorem OwnersIndexed.removeOwner (h : OwnersIndexed store) (order : Listing Str (OwnerRow Url))
    (id : Str) (webId : Url) : OwnersIndexed (store.removeOwner order id webId) := by
  unfold BasePodStore.removeOwner
  cases order.find? (isOwnerRow id webId ·.2) with
  | none => exact h
  | some entry =>
    constructor
    · exact Keyed.erase h.keyed entry.2.id
    · exact h.unique.erase entry.2.id

/-- After a removal the WebID does not own the pod, and nothing else changed. -/
theorem owns_removeOwner (h : OwnersIndexed store) (horder : Enumerates order store.owners)
    (id : Str) (webId : Url) (other : Str) (webId' : Url) (visible : Bool) :
    Owns (store.removeOwner order id webId) other webId' visible ↔
      (id, webId) ≠ (other, webId') ∧ Owns store other webId' visible := by
  unfold BasePodStore.removeOwner
  cases hfind : order.find? (isOwnerRow id webId ·.2) with
  | none =>
    have hfree := free_of_find_eq_none horder hfind
    refine (and_iff_right_of_imp ?_).symm
    rintro ⟨key, row, hrow, hindex, -⟩ hpair
    exact hfree key row hrow (hindex.trans hpair.symm)
  | some entry =>
    obtain ⟨hentry, hindex⟩ := lookup_of_find horder hfind
    have hid : entry.2.id = entry.1 := h.keyed entry.1 entry.2 hentry
    simp only [hid]
    constructor
    · rintro ⟨key, row, hrow, hrowIndex, hvisible⟩
      obtain ⟨hkey, hrow⟩ := lookup_of_erase hrow
      rw [ne_eq, h.unique.key_eq_iff hrow hentry, hrowIndex, hindex, eq_comm] at hkey
      exact ⟨hkey, key, row, hrow, hrowIndex, hvisible⟩
    · rintro ⟨hpair, key, row, hrow, hrowIndex, hvisible⟩
      have hkey : key ≠ entry.1 := by
        rw [ne_eq, h.unique.key_eq_iff hrow hentry, hrowIndex, hindex, eq_comm]
        exact hpair
      refine ⟨key, row, ?_, hrowIndex, hvisible⟩
      rw [lookup_erase_eq_ite, if_neg hkey, hrow]

end Calls

/-! ## Runs -/

/-- The pod and the WebID that a call is about, and the visibility with which it leaves them. -/
def PodCall.effect : PodCall Url → Option ((Str × Url) × Option Bool)
  | .create _ settings _ podId _ => settings.webId.map fun webId ↦ ((podId, webId), some false)
  | .updateOwner id webId visible _ _ => some ((id, webId), some visible)
  | .removeOwner id webId _ => some ((id, webId), none)

section Runs

variable [DecidableEq Url]

/-- The visibility that the latest call about the pod and the WebID left. -/
def latest (podId : Str) (webId : Url) (calls : List (PodCall Url)) : Option Bool :=
  ((calls.filterMap PodCall.effect).reverse.find? (·.1 = (podId, webId))).bind (·.2)

theorem latest_concat (podId : Str) (webId : Url) (calls : List (PodCall Url))
    (call : PodCall Url) :
    latest podId webId (calls ++ [call]) =
      match call.effect with
      | none => latest podId webId calls
      | some (pair, visible) =>
        if pair = (podId, webId) then visible else latest podId webId calls := by
  unfold latest
  rw [List.filterMap_append, List.filterMap_cons, List.filterMap_nil]
  cases call.effect with
  | none => rw [List.append_nil]
  | some effect =>
    rw [List.reverse_append, List.reverse_singleton, List.singleton_append, List.find?_cons]
    by_cases hpair : effect.1 = (podId, webId)
    · simp [hpair]
    · simp [hpair]

/-- The owner table has no two entries for one pod and WebID, and has the ones that the latest calls
left. -/
structure Represents (calls : List (PodCall Url)) (store : BasePodStore Url) : Prop where
  indexed : OwnersIndexed store
  owns : ∀ podId webId visible,
    Owns store podId webId visible ↔ latest podId webId calls = some visible

theorem represents_new : Represents [] (new : BasePodStore Url) where
  indexed := ownersIndexed_new
  owns podId webId visible := iff_of_false (not_owns_new podId webId visible) (by simp [latest])

/-- Every call does to the owners what it says. -/
theorem Represents.callStep {calls : List (PodCall Url)} {store next : BasePodStore Url}
    (h : Represents calls store) {call : PodCall Url}
    (hstep : PodStore.callStep store call = some next) : Represents (calls ++ [call]) next := by
  cases call with
  | create accountId settings overwrite podId ownerId =>
    obtain ⟨⟨hpod, howner⟩, hnext⟩ := Option.ite_none_right_eq_some.mp hstep
    obtain rfl := Option.some_inj.mp hnext
    refine ⟨h.indexed.create hpod accountId settings overwrite ownerId, ?_⟩
    intro other webId visible
    rw [owns_create howner, latest_concat, PodCall.effect]
    cases hwebId : settings.webId with
    | none => simpa using h.owns other webId visible
    | some first =>
      simp only [Option.map_some, Option.some_inj, Prod.mk.injEq]
      split
      · next hpair =>
        obtain ⟨rfl, rfl⟩ := hpair
        have hnone : ¬ Owns store podId first visible := by
          rintro ⟨id, row, hrow, hindex, -⟩
          exact hpod.free first id row hrow hindex
        simp [hnone, eq_comm]
      · next hpair =>
        rw [← h.owns]
        exact or_iff_right fun hnew ↦ hpair ⟨hnew.2.1, hnew.1⟩
  | updateOwner id webId visible order ownerId =>
    obtain ⟨⟨horder, howner⟩, hnext⟩ := Option.ite_none_right_eq_some.mp hstep
    obtain rfl := Option.some_inj.mp hnext
    refine ⟨h.indexed.updateOwner horder id webId visible ownerId, ?_⟩
    intro other webId' visible'
    rw [owns_updateOwner h.indexed horder howner, latest_concat, PodCall.effect]
    simp only
    split
    · exact Option.some_inj.symm
    · exact h.owns other webId' visible'
  | removeOwner id webId order =>
    obtain ⟨horder, hnext⟩ := Option.ite_none_right_eq_some.mp hstep
    obtain rfl := Option.some_inj.mp hnext
    refine ⟨h.indexed.removeOwner order id webId, ?_⟩
    intro other webId' visible
    rw [owns_removeOwner h.indexed horder, latest_concat, PodCall.effect]
    simp only
    split
    · next hpair => simp [hpair]
    · next hpair =>
      rw [and_iff_right hpair]
      exact h.owns other webId' visible

theorem represents_of_run {calls : List (PodCall Url)} {store : BasePodStore Url}
    (hrun : run PodStore.callStep new calls = some store) : Represents calls store :=
  invariant_of_history PodStore.callStep Represents
    (fun _ _ _ _ h hstep ↦ h.callStep hstep) represents_new hrun

end Runs

/-! ## Owner lists -/

section Lists

variable {store : BasePodStore Url} {order other : Listing Str (OwnerRow Url)}

theorem getD_getOwners (order : Listing Str (OwnerRow Url)) (id : Str) :
    (getOwners order id).getD [] = (order.filter (·.2.podId = id)).map (·.2.owner) := by
  simp only [getOwners]
  split
  · next hempty => exact (List.isEmpty_iff.mp hempty).symm
  · rfl

theorem getOwners_eq_none_iff (order : Listing Str (OwnerRow Url)) (id : Str) :
    getOwners order id = none ↔ (getOwners order id).getD [] = [] := by
  rw [getD_getOwners, getOwners, ← List.isEmpty_iff]
  split
  · next hempty => exact iff_of_true rfl hempty
  · next hempty => exact iff_of_false (by simp) hempty

/-- The list has the owners of the pod. -/
theorem mem_getOwners (horder : Enumerates order store.owners) (id : Str) (owner : PodOwner Url) :
    owner ∈ (getOwners order id).getD [] ↔ Owns store id owner.webId owner.visible := by
  rw [getD_getOwners, List.mem_map]
  constructor
  · rintro ⟨entry, hentry, rfl⟩
    obtain ⟨hmem, hpod⟩ := List.mem_filter.mp hentry
    exact ⟨entry.1, entry.2, horder.mem_iff.mp hmem, Prod.ext (of_decide_eq_true hpod) rfl, rfl⟩
  · rintro ⟨key, row, hrow, hindex, hvisible⟩
    obtain ⟨hpod, hwebId⟩ := Prod.mk.inj hindex
    refine ⟨⟨key, row⟩, List.mem_filter.mpr ⟨horder.mem_iff.mpr hrow, decide_eq_true hpod⟩, ?_⟩
    rw [OwnerRow.owner, hwebId, hvisible]

/-- No WebID is listed twice. -/
theorem nodup_getOwners (h : OwnersIndexed store) (horder : Enumerates order store.owners)
    (id : Str) : (((getOwners order id).getD []).map (·.webId)).Nodup := by
  rw [getD_getOwners, List.map_map]
  apply (horder.nodup.filter _).map_on
  intro first hfirst second hsecond hwebId
  obtain ⟨hfirst, hpod⟩ := List.mem_filter.mp hfirst
  obtain ⟨hsecond, hpod'⟩ := List.mem_filter.mp hsecond
  have hlookup := horder.mem_iff.mp hfirst
  have hlookup' := horder.mem_iff.mp hsecond
  have hindex : first.2.index = second.2.index :=
    Prod.ext ((of_decide_eq_true hpod).trans (of_decide_eq_true hpod').symm) hwebId
  have hkey : first.1 = second.1 := h.unique hlookup hlookup' hindex
  have hrow : first.2 = second.2 := Option.some_inj.mp (hlookup.symm.trans (hkey ▸ hlookup'))
  exact Sigma.ext hkey (heq_of_eq hrow)

/-- Another order lists the same owners. -/
theorem perm_getOwners (horder : Enumerates order store.owners)
    (hother : Enumerates other store.owners) (id : Str) :
    ((getOwners order id).getD []).Perm ((getOwners other id).getD []) := by
  have hperm : order.Perm other := Multiset.coe_eq_coe.mp (horder.trans hother.symm)
  rw [getD_getOwners, getD_getOwners]
  exact (hperm.filter _).map _

/-- In every run, the owner list of a pod has the WebIDs whose latest call about the pod is not a
removal, each once and with the visibility of that call, whatever the order of the scan; it is
absent exactly when it would be empty. -/
theorem getOwners_of_run [DecidableEq Url] {calls : List (PodCall Url)}
    (hrun : run callStep new calls = some store) (horder : Enumerates order store.owners) (id : Str) :
    (((getOwners order id).getD []).map (·.webId)).Nodup ∧
      (∀ webId visible, ⟨webId, visible⟩ ∈ (getOwners order id).getD [] ↔
        latest id webId calls = some visible) ∧
      (getOwners order id = none ↔ ∀ webId, latest id webId calls = none) ∧
      ∀ other, Enumerates other store.owners →
        ((getOwners order id).getD []).Perm ((getOwners other id).getD []) := by
  have hrepresents := represents_of_run hrun
  have hmem (webId : Url) (visible : Bool) : ⟨webId, visible⟩ ∈ (getOwners order id).getD [] ↔
      latest id webId calls = some visible :=
    (mem_getOwners horder id ⟨webId, visible⟩).trans (hrepresents.owns id webId visible)
  refine ⟨nodup_getOwners hrepresents.indexed horder id, hmem, ?_, fun other hother ↦
    perm_getOwners horder hother id⟩
  rw [getOwners_eq_none_iff, List.eq_nil_iff_forall_not_mem]
  constructor
  · intro hempty webId
    rw [Option.eq_none_iff_forall_ne_some]
    intro visible hlatest
    exact hempty ⟨webId, visible⟩ ((hmem webId visible).mpr hlatest)
  · intro hnone owner howner
    have hlatest := (hmem owner.webId owner.visible).mp howner
    rw [hnone] at hlatest
    simp at hlatest

/-- An owner added, hidden again and listed beside the first owner of the pod. -/
theorem getOwners_of_run_two_owners :
    ∃ store : BasePodStore ℕ, run callStep new
        [.create ['a'] ⟨1, some 2⟩ false ['p'] ['o'],
          .updateOwner ['p'] 3 true [⟨['o'], ⟨['o'], ['p'], 2, false⟩⟩] ['q'],
          .removeOwner ['p'] 2
            [⟨['q'], ⟨['q'], ['p'], 3, true⟩⟩, ⟨['o'], ⟨['o'], ['p'], 2, false⟩⟩]] = some store ∧
      ∀ webId visible,
        ⟨webId, visible⟩ ∈ (getOwners [⟨['q'], ⟨['q'], ['p'], 3, true⟩⟩] ['p']).getD [] ↔
          latest ['p'] webId
            [.create ['a'] ⟨1, some 2⟩ false ['p'] ['o'],
              .updateOwner ['p'] 3 true [⟨['o'], ⟨['o'], ['p'], 2, false⟩⟩] ['q'],
              .removeOwner ['p'] 2
                [⟨['q'], ⟨['q'], ['p'], 3, true⟩⟩, ⟨['o'], ⟨['o'], ['p'], 2, false⟩⟩]] =
            some visible := by
  obtain ⟨store, hrun, horder⟩ : ∃ store : BasePodStore ℕ, run callStep new
        [.create ['a'] ⟨1, some 2⟩ false ['p'] ['o'],
          .updateOwner ['p'] 3 true [⟨['o'], ⟨['o'], ['p'], 2, false⟩⟩] ['q'],
          .removeOwner ['p'] 2
            [⟨['q'], ⟨['q'], ['p'], 3, true⟩⟩, ⟨['o'], ⟨['o'], ['p'], 2, false⟩⟩]] = some store ∧
      Enumerates ([⟨['q'], ⟨['q'], ['p'], 3, true⟩⟩] : Listing Str (OwnerRow ℕ)) store.owners :=
    ⟨_, rfl, rfl⟩
  exact ⟨store, hrun, (getOwners_of_run hrun horder ['p']).2.1⟩

end Lists

end SolidCommunity.Identity.PodStore
