import SolidCommunity.Foundations.Runs
import SolidCommunity.Foundations.Text
import SolidCommunity.Foundations.UniqueIndex

/-!
# WebID Links

A link records that a WebID belongs to an account, and is a row of its own under a generated id.
Nothing stops an account from linking a WebID twice, and a deletion removes one row, so after it the
pair is linked by the other rows that it had and by no others.
-/

namespace SolidCommunity.Identity.WebIdStore

open Foundations.FiniteMap Foundations.Runs Foundations.Text Foundations.UniqueIndex

structure WebIdLink (Url : Type*) where
  id : Str
  webId : Url
  accountId : Str
deriving DecidableEq

/-- The links, each under its own id. -/
structure BaseWebIdStore (Url : Type*) where
  links : HashMap Str (WebIdLink Url)

variable {Url : Type*}

namespace BaseWebIdStore

def new : BaseWebIdStore Url := ⟨∅⟩

/-- Create a link with the generated id. -/
def create (store : BaseWebIdStore Url) (webId : Url) (accountId id : Str) :
    BaseWebIdStore Url × WebIdLink Url :=
  let link : WebIdLink Url := ⟨id, webId, accountId⟩
  (⟨store.links.insert id link⟩, link)

def get (store : BaseWebIdStore Url) (linkId : Str) : Option (WebIdLink Url) :=
  store.links.lookup linkId

def findByAccount (order : Listing Str (WebIdLink Url)) (accountId : Str) : List (WebIdLink Url) :=
  (order.filter (·.2.accountId = accountId)).map (·.2)

/-- Remove a link; an unknown id is an error. -/
def delete (store : BaseWebIdStore Url) (linkId : Str) : BaseWebIdStore Url × Except Str Unit :=
  match store.links.lookup linkId with
  | some _ => (⟨store.links.erase linkId⟩, .ok ())
  | none => (store, .error ("webid link not found: ".toList ++ linkId))

def isLinked [DecidableEq Url] (order : Listing Str (WebIdLink Url)) (webId : Url)
    (accountId : Str) : Bool :=
  order.any fun entry ↦ entry.2.webId = webId && entry.2.accountId = accountId

end BaseWebIdStore

open BaseWebIdStore

/-! ## Runs -/

/-- A mutating call, with the id it generates. -/
inductive StoreCall (Url : Type*) where
  | create (webId : Url) (accountId id : Str)
  | delete (linkId : Str)
deriving DecidableEq

/-- One call; a create draws a fresh id. -/
def callStep (store : BaseWebIdStore Url) : StoreCall Url → Option (BaseWebIdStore Url)
  | .create webId accountId id =>
    if id ∈ store.links then none else some (store.create webId accountId id).1
  | .delete linkId => some (store.delete linkId).1

/-- The call does not create the pair of the link. -/
def StoreCall.Spares (link : WebIdLink Url) : StoreCall Url → Prop
  | .create webId accountId _ => (webId, accountId) ≠ (link.webId, link.accountId)
  | .delete _ => True

section Store

variable {store next : BaseWebIdStore Url} {link : WebIdLink Url}

theorem get_create (webId : Url) (accountId id other : Str) :
    (store.create webId accountId id).1.get other =
      if other = id then some ⟨id, webId, accountId⟩ else store.get other :=
  lookup_insert_eq_ite store.links id other _

theorem links_delete (linkId : Str) :
    (store.delete linkId).1.links = store.links.erase linkId := by
  cases hlink : store.links.lookup linkId with
  | some link => simp only [delete, hlink]
  | none =>
    simp only [delete, hlink]
    exact (erase_eq_self (Finmap.lookup_eq_none.mp hlink)).symm

theorem get_delete (linkId other : Str) :
    (store.delete linkId).1.get other = if other = linkId then none else store.get other := by
  rw [BaseWebIdStore.get, links_delete]
  exact lookup_erase_eq_ite store.links linkId other

/-- A deletion succeeds exactly when there is a link to delete. -/
theorem delete_eq_ok_iff {linkId : Str} :
    (store.delete linkId).2 = .ok () ↔ ∃ link, store.get linkId = some link := by
  cases hlink : store.links.lookup linkId with
  | some link => simp [BaseWebIdStore.get, delete, hlink]
  | none => simp [BaseWebIdStore.get, delete, hlink]

/-- Every call keeps the links under their own ids. -/
theorem keyed_callStep (h : Keyed WebIdLink.id store.links) {call : StoreCall Url}
    (hstep : callStep store call = some next) : Keyed WebIdLink.id next.links := by
  cases call with
  | create webId accountId id =>
    obtain ⟨-, hnext⟩ := Option.ite_none_left_eq_some.mp hstep
    rw [← Option.some_inj.mp hnext]
    exact h.insert rfl
  | delete linkId =>
    rw [← Option.some_inj.mp hstep, links_delete]
    exact h.erase linkId

theorem keyed_of_run {calls : List (StoreCall Url)} {final : BaseWebIdStore Url}
    (hstart : Keyed WebIdLink.id store.links) (hrun : run callStep store calls = some final) :
    Keyed WebIdLink.id final.links :=
  invariant_of_run callStep (fun store ↦ Keyed WebIdLink.id store.links)
    (fun _ _ _ h hstep ↦ keyed_callStep h hstep) hstart hrun

/-- A call that does not create the pair of a link stores it afterwards only if it was stored
before, and keeps it unless it deletes it. -/
theorem get_callStep_iff {call : StoreCall Url} (hstep : callStep store call = some next)
    (hspares : call.Spares link) :
    next.get link.id = some link ↔ store.get link.id = some link ∧ call ≠ .delete link.id := by
  cases call with
  | create webId accountId id =>
    obtain ⟨hfresh, hnext⟩ := Option.ite_none_left_eq_some.mp hstep
    rw [← Option.some_inj.mp hnext, get_create]
    split
    · next heq =>
      have hother : (⟨id, webId, accountId⟩ : WebIdLink Url) ≠ link := by
        rintro rfl
        exact hspares rfl
      have habsent : store.get link.id = none := heq ▸ Finmap.lookup_eq_none.mpr hfresh
      simp [hother, habsent]
    · simp
  | delete linkId =>
    rw [← Option.some_inj.mp hstep, get_delete]
    by_cases heq : link.id = linkId
    · simp [heq]
    · have hcall : StoreCall.delete linkId ≠ (StoreCall.delete link.id : StoreCall Url) :=
        fun h ↦ heq (StoreCall.delete.inj h).symm
      rw [if_neg heq, and_iff_left hcall]

/-- Along calls that do not create its pair, a link stays until it is deleted. -/
theorem get_of_run_iff {calls : List (StoreCall Url)} {final : BaseWebIdStore Url}
    (hrun : run callStep store calls = some final) (hspares : ∀ call ∈ calls, call.Spares link) :
    final.get link.id = some link ↔ store.get link.id = some link ∧ .delete link.id ∉ calls := by
  induction calls generalizing store with
  | nil =>
    obtain rfl : store = final := by simpa using hrun
    simp
  | cons call calls ih =>
    obtain ⟨next, hstep, hrest⟩ := (run_cons_eq_some callStep).mp hrun
    obtain ⟨hcall, hcalls⟩ := List.forall_mem_cons.mp hspares
    rw [ih hrest hcalls, get_callStep_iff hstep hcall, List.mem_cons, not_or, and_assoc, ne_comm]

end Store

/-! ## Scans -/

section Scans

variable {store : BaseWebIdStore Url} {order : Listing Str (WebIdLink Url)} {accountId : Str}

/-- The links of an account are listed. -/
theorem mem_findByAccount (hkeyed : Keyed WebIdLink.id store.links)
    (horder : Enumerates order store.links) {link : WebIdLink Url} :
    link ∈ findByAccount order accountId ↔
      store.get link.id = some link ∧ link.accountId = accountId := by
  rw [findByAccount, List.mem_map]
  constructor
  · rintro ⟨⟨id, row⟩, hentry, rfl⟩
    obtain ⟨hmem, haccount⟩ := List.mem_filter.mp hentry
    have hrow : store.get id = some row := horder.mem_iff.mp hmem
    exact ⟨(hkeyed id row hrow).symm ▸ hrow, of_decide_eq_true haccount⟩
  · rintro ⟨hlink, haccount⟩
    exact ⟨⟨link.id, link⟩,
      List.mem_filter.mpr ⟨horder.mem_iff.mpr hlink, decide_eq_true haccount⟩, rfl⟩

/-- A WebID is linked to an account when a listed link of the account is one of the WebID. -/
theorem isLinked_iff [DecidableEq Url] {webId : Url} :
    isLinked order webId accountId = true ↔
      ∃ link, link ∈ findByAccount order accountId ∧ link.webId = webId := by
  simp only [isLinked, List.any_eq_true, Bool.and_eq_true, decide_eq_true_iff]
  constructor
  · rintro ⟨entry, hentry, hwebId, haccount⟩
    exact ⟨entry.2, List.mem_map.mpr
      ⟨entry, List.mem_filter.mpr ⟨hentry, decide_eq_true haccount⟩, rfl⟩, hwebId⟩
  · rintro ⟨link, hlink, hwebId⟩
    obtain ⟨entry, hentry, rfl⟩ := List.mem_map.mp hlink
    obtain ⟨hmem, haccount⟩ := List.mem_filter.mp hentry
    exact ⟨entry, hmem, hwebId, of_decide_eq_true haccount⟩

end Scans

/-! ## Unlinking -/

/-- Another link of the same pair was stored when the link was deleted, and has not been deleted by
the calls since then. -/
structure Remains (store : BaseWebIdStore Url) (deleted : WebIdLink Url)
    (later : List (StoreCall Url)) (link : WebIdLink Url) : Prop where
  webId : link.webId = deleted.webId
  accountId : link.accountId = deleted.accountId
  stored : store.get link.id = some link
  other : link.id ≠ deleted.id
  kept : .delete link.id ∉ later

section Unlinking

variable {store final : BaseWebIdStore Url} {before later : List (StoreCall Url)}
  {linkId : Str} {deleted link : WebIdLink Url}

/-- After a deletion, a link of the pair is stored if it has survived this deletion and the later
ones. -/
theorem get_after_delete_iff (hkeyed : Keyed WebIdLink.id store.links)
    (hdeleted : store.get linkId = some deleted)
    (hlater : run callStep (store.delete linkId).1 later = some final)
    (huntil : ∀ id, .create deleted.webId deleted.accountId id ∉ later)
    (hwebId : link.webId = deleted.webId) (haccount : link.accountId = deleted.accountId) :
    final.get link.id = some link ↔
      (store.get link.id = some link ∧ link.id ≠ deleted.id) ∧ .delete link.id ∉ later := by
  have hid : deleted.id = linkId := hkeyed linkId deleted hdeleted
  have hdelete : callStep store (.delete linkId) = some (store.delete linkId).1 := rfl
  have hspares : ∀ call ∈ later, call.Spares link := by
    rintro (⟨webId, accountId, id⟩ | id) hcall
    · intro hpair
      rw [hwebId, haccount, Prod.mk.injEq] at hpair
      obtain ⟨rfl, rfl⟩ := hpair
      exact huntil id hcall
    · trivial
  rw [get_of_run_iff hlater hspares, get_callStep_iff hdelete trivial, hid, ne_eq, ne_eq,
    StoreCall.delete.injEq, eq_comm (a := linkId)]

/-- After a successful deletion and until the pair is created again, the links that are listed for
the pair are the others that it had and that have not been deleted since, and it is linked exactly
when there is one. -/
theorem linked_after_delete_iff [DecidableEq Url] (hbefore : run callStep new before = some store)
    (hsuccess : (store.delete linkId).2 = .ok ()) :
    ∃ deleted, store.get linkId = some deleted ∧
      ∀ (later : List (StoreCall Url)) (final : BaseWebIdStore Url)
          (order : Listing Str (WebIdLink Url)),
        run callStep (store.delete linkId).1 later = some final →
        (∀ id, .create deleted.webId deleted.accountId id ∉ later) →
        Enumerates order final.links →
        (∀ link, link ∈ findByAccount order deleted.accountId ∧ link.webId = deleted.webId ↔
            Remains store deleted later link) ∧
          (isLinked order deleted.webId deleted.accountId = true ↔
            ∃ link, Remains store deleted later link) := by
  obtain ⟨deleted, hdeleted⟩ := delete_eq_ok_iff.mp hsuccess
  refine ⟨deleted, hdeleted, fun later final order hlater huntil horder ↦ ?_⟩
  have hkeyed : Keyed WebIdLink.id store.links := keyed_of_run keyed_empty hbefore
  have hdelete : callStep store (.delete linkId) = some (store.delete linkId).1 := rfl
  have hlisted (link : WebIdLink Url) :
      link ∈ findByAccount order deleted.accountId ∧ link.webId = deleted.webId ↔
        Remains store deleted later link := by
    rw [mem_findByAccount (keyed_of_run (keyed_callStep hkeyed hdelete) hlater) horder]
    constructor
    · rintro ⟨⟨hlink, haccount⟩, hwebId⟩
      obtain ⟨⟨hbefore, hother⟩, hkept⟩ :=
        (get_after_delete_iff hkeyed hdeleted hlater huntil hwebId haccount).mp hlink
      exact ⟨hwebId, haccount, hbefore, hother, hkept⟩
    · intro h
      exact ⟨⟨(get_after_delete_iff hkeyed hdeleted hlater huntil h.webId h.accountId).mpr
        ⟨⟨h.stored, h.other⟩, h.kept⟩, h.accountId⟩, h.webId⟩
  exact ⟨hlisted, isLinked_iff.trans (exists_congr hlisted)⟩

/-- A pair that was linked twice is unlinked by the second deletion. -/
theorem linked_after_delete_iff_both :
    ∃ store final : BaseWebIdStore ℕ,
      run callStep new [.create 1 ['a'] ['x'], .create 2 ['a'] ['y'], .create 1 ['a'] ['z']] =
          some store ∧
        (store.delete ['x']).2 = .ok () ∧
        run callStep (store.delete ['x']).1 [.delete ['z']] = some final ∧
        (isLinked [⟨['y'], ⟨['y'], 2, ['a']⟩⟩] 1 ['a'] = true ↔
          ∃ link, Remains store ⟨['x'], 1, ['a']⟩ [.delete ['z']] link) := by
  obtain ⟨store, final, hbefore, hsuccess, hget, hlater, horder⟩ :
      ∃ store final : BaseWebIdStore ℕ,
        run callStep new [.create 1 ['a'] ['x'], .create 2 ['a'] ['y'], .create 1 ['a'] ['z']] =
            some store ∧
          (store.delete ['x']).2 = .ok () ∧
          store.get ['x'] = some ⟨['x'], 1, ['a']⟩ ∧
          run callStep (store.delete ['x']).1 [.delete ['z']] = some final ∧
          Enumerates ([⟨['y'], ⟨['y'], 2, ['a']⟩⟩] : Listing Str (WebIdLink ℕ)) final.links :=
    ⟨_, _, rfl, rfl, rfl, rfl, rfl⟩
  obtain ⟨deleted, hdeleted, hlinked⟩ := linked_after_delete_iff hbefore hsuccess
  obtain rfl := Option.some_inj.mp (hdeleted.symm.trans hget)
  exact ⟨store, final, hbefore, hsuccess, hlater, (hlinked _ final _ hlater (by simp) horder).2⟩

/-- A pair that was linked twice is still linked after one successful deletion. -/
theorem linked_after_delete_one :
    ∃ store : BaseWebIdStore ℕ,
      run callStep new [.create 1 ['a'] ['x'], .create 1 ['a'] ['y']] = some store ∧
        store.get ['x'] = some ⟨['x'], 1, ['a']⟩ ∧ (store.delete ['x']).2 = .ok () ∧
        Enumerates [⟨['y'], ⟨['y'], 1, ['a']⟩⟩] (store.delete ['x']).1.links ∧
        isLinked [⟨['y'], ⟨['y'], 1, ['a']⟩⟩] 1 ['a'] = true ∧
        ⟨['y'], 1, ['a']⟩ ∈ findByAccount [⟨['y'], ⟨['y'], 1, ['a']⟩⟩] ['a'] :=
  ⟨_, rfl, rfl, rfl, rfl, rfl, by decide⟩

end Unlinking

end SolidCommunity.Identity.WebIdStore
