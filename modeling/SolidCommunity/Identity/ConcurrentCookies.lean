import Mathlib.Logic.Function.Basic
import SolidCommunity.Foundations.Leases
import SolidCommunity.Identity.CookieStore

/-!
# Concurrent Cookies

A call reads the clock before it takes the lock, and a generation takes the lock twice, to prune and
to insert.  Other clients run in between, so a call can judge an entry by a reading that is older
than what the lock has since been taken for: a refresh can find a cookie pruned that had not expired
when the refresh began.  What a call finds is still right for some moment of the call.
-/

namespace SolidCommunity.Identity.ConcurrentCookies

open AccountStore (Instant Duration)
open CookieStore (BaseCookieStore CookieEntry SystemTime)
open Foundations.FiniteMap Foundations.Leases Foundations.Runs Foundations.Text

/-! ## Calls -/

/-- A client's call; a generation comes with the cookie that it draws. -/
inductive Call where
  | generate (accountId cookie : Str)
  | get (cookie : Str)
  | refresh (cookie : Str)
  | delete (cookie : Str)
deriving DecidableEq

/-- A completed call, with the reading that it judged by and its result. -/
inductive Completed where
  | issued (accountId cookie : Str) (issuedAt : Instant)
  | looked (cookie : Str) (now : Instant) (result : Option Str)
  | refreshed (cookie : Str) (now : Instant) (result : Option SystemTime)
  | removed (cookie : Str) (flag : Bool)
deriving DecidableEq

/-- Where a call stands between two sections. -/
inductive CallState where
  | idle
  | called (call : Call)
  | pruning (accountId cookie : Str) (now : Instant)
  | pruned (accountId cookie : Str)
  | inserting (accountId cookie : Str) (issuedAt : Instant)
  | getting (cookie : Str) (now : Instant)
  | refreshing (cookie : Str) (now : Instant)
  | returned (completed : Completed)
deriving DecidableEq

/-- The second section of a generation. -/
def insertCookie (store : BaseCookieStore) (accountId cookie : Str) (issuedAt : Instant) :
    BaseCookieStore :=
  { store with inner := store.inner.insert cookie ⟨accountId, issuedAt + store.ttl⟩ }

/-- The two sections of a generation that runs alone are the generation of the store. -/
theorem generate_eq_sections (store : BaseCookieStore) (accountId cookie : Str)
    (now issuedAt : Instant) :
    store.generate accountId cookie now issuedAt =
      (insertCookie (store.prune now) accountId cookie issuedAt, cookie) := rfl

/-- The next step of a call: a reading of the clock, or a section under the lock. -/
def advance (store : BaseCookieStore) (clock : Instant) (systemNow : SystemTime) :
    CallState → Option (BaseCookieStore × CallState)
  | .called (.generate accountId cookie) => some (store, .pruning accountId cookie clock)
  | .pruning accountId cookie now => some (store.prune now, .pruned accountId cookie)
  | .pruned accountId cookie => some (store, .inserting accountId cookie clock)
  | .inserting accountId cookie issuedAt =>
    some (insertCookie store accountId cookie issuedAt,
      .returned (.issued accountId cookie issuedAt))
  | .called (.get cookie) => some (store, .getting cookie clock)
  | .getting cookie now => some (store, .returned (.looked cookie now (store.get cookie now)))
  | .called (.refresh cookie) => some (store, .refreshing cookie clock)
  | .refreshing cookie now =>
    some ((store.refresh cookie now systemNow).1,
      .returned (.refreshed cookie now (store.refresh cookie now systemNow).2))
  | .called (.delete cookie) =>
    some ((store.delete cookie).1, .returned (.removed cookie (store.delete cookie).2))
  | .idle | .returned _ => none

/-- The call that has just completed. -/
def CallState.completed : CallState → Option Completed
  | returned completed => some completed
  | _ => none

/-- The reading that a call goes by. -/
def CallState.reading : CallState → Option Instant
  | pruning _ _ now | inserting _ _ now | getting _ now | refreshing _ now => some now
  | _ => none

/-! ## Interleavings -/

variable {Client : Type*}

/-- The store, the clock, the calls of the clients, and the completed calls in the order of their
last section, each with the time of that section. -/
structure Configuration (Client : Type*) where
  store : BaseCookieStore
  clock : Instant
  calls : Client → CallState
  log : List (Instant × Completed)

/-- No client has called anything. -/
def Configuration.initial (Client : Type*) (ttl : Duration) : Configuration Client :=
  ⟨BaseCookieStore.new ttl, 0, fun _ ↦ .idle, []⟩

inductive Event (Client : Type*) where
  | tick (later : Instant)
  | invoke (client : Client) (call : Call)
  | proceed (client : Client) (systemNow : SystemTime)
  | complete (client : Client)

section Steps

variable [DecidableEq Client]

/-- Time passes, or one client takes one step. -/
def step (configuration : Configuration Client) : Event Client → Option (Configuration Client)
  | .tick later =>
    if configuration.clock ≤ later then some { configuration with clock := later } else none
  | .invoke client call =>
    if configuration.calls client = .idle then
      some { configuration with calls := Function.update configuration.calls client (.called call) }
    else none
  | .proceed client systemNow =>
    match advance configuration.store configuration.clock systemNow (configuration.calls client) with
    | some (store, moved) =>
      some { configuration with
        store := store
        calls := Function.update configuration.calls client moved
        log := configuration.log ++ moved.completed.toList.map (configuration.clock, ·) }
    | none => none
  | .complete client =>
    match configuration.calls client with
    | .returned _ =>
      some { configuration with calls := Function.update configuration.calls client .idle }
    | _ => none

end Steps

/-! ## What the calls grant -/

/-- The cookie that a completed call was about. -/
def Completed.cookie : Completed → Str
  | issued _ cookie _ => cookie
  | looked cookie _ _ => cookie
  | refreshed cookie _ _ => cookie
  | removed cookie _ => cookie

/-- What a completed call grants its cookie: an issued one lasts from its reading on, and a refresh
that found the cookie moves its deadline. -/
def Completed.grant (ttl : Duration) : Completed → Option CookieEntry → Option CookieEntry
  | issued accountId _ issuedAt, _ => some ⟨accountId, issuedAt + ttl⟩
  | refreshed _ now (some _), entry => entry.map fun entry ↦ { entry with expiresAt := now + ttl }
  | removed _ _, _ => none
  | _, entry => entry

/-- What the completed calls have granted a cookie. -/
def granted (ttl : Duration) (cookie : Str) (log : List (Instant × Completed)) :
    Option CookieEntry :=
  ledger (fun entry ↦ some entry.2.cookie) (fun entry ↦ entry.2.grant ttl) cookie log

/-- The deadline has passed. -/
def Elapsed (clock : Instant) (entry : CookieEntry) : Prop := entry.expiresAt ≤ clock

/-- A call that found a cookie found what was granted, with a deadline after its reading; one that
did not find it came after a deletion or after the deadline. -/
def Explained (ttl : Duration) (past : List (Instant × Completed)) : Instant × Completed → Prop
  | (endedAt, .issued _ _ issuedAt) => issuedAt ≤ endedAt
  | (endedAt, .looked cookie now result) =>
    now ≤ endedAt ∧
      match result with
      | some accountId =>
        ∃ entry ∈ granted ttl cookie past, entry.accountId = accountId ∧ now < entry.expiresAt
      | none => ∀ entry ∈ granted ttl cookie past, Elapsed endedAt entry
  | (endedAt, .refreshed cookie now result) =>
    now ≤ endedAt ∧
      match result with
      | some _ => ∃ entry ∈ granted ttl cookie past, now < entry.expiresAt
      | none => ∀ entry ∈ granted ttl cookie past, Elapsed endedAt entry
  | (endedAt, .removed cookie flag) =>
    if flag then ∃ entry, granted ttl cookie past = some entry
    else ∀ entry ∈ granted ttl cookie past, Elapsed endedAt entry

theorem granted_concat (ttl : Duration) (cookie : Str) (log : List (Instant × Completed))
    (entry : Instant × Completed) :
    granted ttl cookie (log ++ [entry]) =
      if entry.2.cookie = cookie then entry.2.grant ttl (granted ttl cookie log)
      else granted ttl cookie log := by
  rw [granted, ledger_concat]
  simp only [Option.some_inj]
  rfl

/-! ## Sections -/

section Sections

variable {ttl : Duration} {store next : BaseCookieStore} {clock now : Instant}
  {systemNow : SystemTime} {log : List (Instant × Completed)} {cookie : Str}

/-- The entry has not expired at the reading. -/
def isLive (now : Instant) (entry : CookieEntry) : Bool := now < entry.expiresAt

/-- What a reading finds expired has expired by now. -/
theorem elapsed_of_not_isLive (hnow : now ≤ clock) (entry : CookieEntry)
    (h : isLive now entry = false) : Elapsed clock entry :=
  (not_lt.mp (of_decide_eq_false h)).trans hnow

/-- Every cookie is stored as granted, or has been pruned after its deadline. -/
def AllKept (ttl : Duration) (clock : Instant) (store : BaseCookieStore)
    (log : List (Instant × Completed)) : Prop :=
  ∀ cookie, Kept (Elapsed clock) (store.inner.lookup cookie) (granted ttl cookie log)

theorem AllKept.mono {later : Instant} (h : AllKept ttl clock store log) (hlater : clock ≤ later) :
    AllKept ttl later store log :=
  fun cookie ↦ (h cookie).imp fun _ helapsed ↦ le_trans helapsed hlater

/-- Pruning by an old reading removes what has expired since. -/
theorem AllKept.prune (h : AllKept ttl clock store log) (hnow : now ≤ clock) :
    AllKept ttl clock (store.prune now) log := by
  intro cookie
  rw [BaseCookieStore.prune, lookup_retain]
  exact (h cookie).filter (elapsed_of_not_isLive hnow)

/-- A completed call that leaves its cookie as the calls have granted it. -/
theorem AllKept.concat {changed : BaseCookieStore} {completed : Completed}
    (h : AllKept ttl clock store log)
    (hcookie : Kept (Elapsed clock) (changed.inner.lookup completed.cookie)
      (completed.grant ttl (granted ttl completed.cookie log)))
    (hother : ∀ other, other ≠ completed.cookie →
      changed.inner.lookup other = store.inner.lookup other) :
    AllKept ttl clock changed (log ++ [(clock, completed)]) := by
  intro other
  rw [granted_concat]
  by_cases hsame : completed.cookie = other
  · subst hsame
    rw [if_pos rfl]
    exact hcookie
  · rw [if_neg hsame, hother other (Ne.symm hsame)]
    exact h other

theorem refresh_of_live {entry : CookieEntry} (hentry : store.inner.lookup cookie = some entry)
    (hlive : isLive now entry = true) :
    store.refresh cookie now systemNow =
      ({ store with
          inner := store.inner.insert cookie { entry with expiresAt := now + store.ttl } },
        some (systemNow + store.ttl)) := by
  unfold BaseCookieStore.refresh
  simp only [hentry]
  exact if_pos (of_decide_eq_true hlive)

theorem refresh_of_not_live (h : (store.inner.lookup cookie).filter (isLive now) = none) :
    store.refresh cookie now systemNow = (store, none) := by
  unfold BaseCookieStore.refresh
  cases hentry : store.inner.lookup cookie with
  | none => rfl
  | some entry =>
    have hexpired : ¬ now < entry.expiresAt := by simpa [hentry, isLive] using h
    exact if_neg hexpired

/-- What a call has done when it completes. -/
structure Finishes (ttl : Duration) (clock : Instant) (log : List (Instant × Completed))
    (next : BaseCookieStore) (completed : Completed) : Prop where
  ttl_eq : next.ttl = ttl
  kept : AllKept ttl clock next (log ++ [(clock, completed)])
  explained : Explained ttl log (clock, completed)

theorem finishes_insertCookie (httl : store.ttl = ttl) (h : AllKept ttl clock store log)
    (hnow : now ≤ clock) (accountId cookie : Str) :
    Finishes ttl clock log (insertCookie store accountId cookie now)
      (.issued accountId cookie now) where
  ttl_eq := httl
  kept := by
    apply h.concat
    · change Kept _ ((store.inner.insert cookie _).lookup cookie) (some ⟨accountId, now + ttl⟩)
      rw [Finmap.lookup_insert, httl]
      exact kept_self _ _
    · intro other hother
      exact Finmap.lookup_insert_of_ne _ hother
  explained := hnow

theorem finishes_get (httl : store.ttl = ttl) (h : AllKept ttl clock store log)
    (hnow : now ≤ clock) (cookie : Str) :
    Finishes ttl clock log store (.looked cookie now (store.get cookie now)) where
  ttl_eq := httl
  kept := h.concat (h cookie) fun _ _ ↦ rfl
  explained := by
    refine ⟨hnow, ?_⟩
    have hget : store.get cookie now =
        ((store.inner.lookup cookie).filter (isLive now)).map CookieEntry.accountId := rfl
    rcases (h cookie).found_or_dead (elapsed_of_not_isLive hnow) with
      ⟨entry, hfound, hgranted, hlive⟩ | ⟨hnone, helapsed⟩
    · rw [hget, hfound]
      exact ⟨entry, hgranted, rfl, of_decide_eq_true hlive⟩
    · rw [hget, hnone]
      exact helapsed

theorem finishes_refresh (httl : store.ttl = ttl) (h : AllKept ttl clock store log)
    (hnow : now ≤ clock) (cookie : Str) (systemNow : SystemTime) :
    Finishes ttl clock log (store.refresh cookie now systemNow).1
      (.refreshed cookie now (store.refresh cookie now systemNow).2) := by
  rcases (h cookie).found_or_dead (elapsed_of_not_isLive hnow) with
    ⟨entry, hfound, hgranted, hlive⟩ | ⟨hnone, helapsed⟩
  · have hentry : store.inner.lookup cookie = some entry := (Option.filter_eq_some_iff.mp hfound).1
    rw [refresh_of_live hentry hlive]
    refine ⟨httl, h.concat ?_ ?_, hnow, entry, hgranted, of_decide_eq_true hlive⟩
    · change Kept _ ((store.inner.insert cookie _).lookup cookie)
        ((granted ttl cookie log).map fun entry ↦ { entry with expiresAt := now + ttl })
      rw [Finmap.lookup_insert, hgranted, httl]
      exact kept_self _ _
    · intro other hother
      exact Finmap.lookup_insert_of_ne _ hother
  · rw [refresh_of_not_live hnone]
    exact ⟨httl, h.concat (h cookie) fun _ _ ↦ rfl, hnow, helapsed⟩

theorem finishes_delete (httl : store.ttl = ttl) (h : AllKept ttl clock store log) (cookie : Str) :
    Finishes ttl clock log (store.delete cookie).1 (.removed cookie (store.delete cookie).2) where
  ttl_eq := httl
  kept := by
    apply h.concat
    · change Kept _ ((store.inner.erase cookie).lookup cookie) none
      rw [Finmap.lookup_erase]
      exact kept_self _ _
    · intro other hother
      exact Finmap.lookup_erase_ne hother
  explained := by
    by_cases hmem : cookie ∈ store.inner
    · obtain ⟨entry, hentry⟩ := Finmap.mem_iff.mp hmem
      have hflag : (store.delete cookie).2 = true := decide_eq_true hmem
      rw [hflag]
      exact ⟨entry, (h cookie).eq_some hentry⟩
    · have hflag : (store.delete cookie).2 = false := decide_eq_false hmem
      rw [hflag]
      exact (h cookie).dead_of_eq_none (Finmap.lookup_eq_none.mpr hmem)

end Sections

/-! ## Runs -/

/-- What a call goes by was read before. -/
def ReadBefore (clock : Instant) (state : CallState) : Prop :=
  ∀ now ∈ state.reading, now ≤ clock

/-- What a call returns is in the log. -/
def Logged (log : List (Instant × Completed)) (state : CallState) : Prop :=
  ∀ completed ∈ state.completed, completed ∈ log.map Prod.snd

/-- Every completed call is explained by the calls before it, and every cookie is stored as granted
or has been pruned after its deadline. -/
structure Consistent (ttl : Duration) (configuration : Configuration Client) : Prop where
  ttl_eq : configuration.store.ttl = ttl
  readings : ∀ client, ReadBefore configuration.clock (configuration.calls client)
  kept : AllKept ttl configuration.clock configuration.store configuration.log
  answered : ∀ client, Logged configuration.log (configuration.calls client)
  explained : ∀ index entry, configuration.log[index]? = some entry →
    Explained ttl (configuration.log.take index) entry

section Runs

variable {ttl : Duration} {store next : BaseCookieStore} {clock : Instant} {systemNow : SystemTime}
  {log : List (Instant × Completed)} {state moved : CallState}

/-- A step of a call completes it, or keeps what is granted. -/
theorem finishes_of_advance (httl : store.ttl = ttl) (hkept : AllKept ttl clock store log)
    (hreading : ReadBefore clock state)
    (h : advance store clock systemNow state = some (next, moved)) :
    (∃ completed, moved = .returned completed ∧ Finishes ttl clock log next completed) ∨
      (moved.completed = none ∧ next.ttl = ttl ∧ AllKept ttl clock next log ∧
        ReadBefore clock moved) := by
  have hread {state : CallState} (hstate : state.reading = some clock) :
      ReadBefore clock state := by
    intro now hnow
    rw [hstate] at hnow
    exact le_of_eq (Option.some_inj.mp hnow).symm
  cases state with
  | idle | returned => simp [advance] at h
  | called call =>
    cases call with
    | generate | get | refresh =>
      cases h
      exact .inr ⟨rfl, httl, hkept, hread rfl⟩
    | delete cookie =>
      cases h
      exact .inl ⟨_, rfl, finishes_delete httl hkept cookie⟩
  | pruning accountId cookie now =>
    cases h
    exact .inr ⟨rfl, httl, hkept.prune (hreading now rfl), by simp [ReadBefore, CallState.reading]⟩
  | pruned accountId cookie =>
    cases h
    exact .inr ⟨rfl, httl, hkept, hread rfl⟩
  | inserting accountId cookie issuedAt =>
    cases h
    exact .inl ⟨_, rfl, finishes_insertCookie httl hkept (hreading issuedAt rfl) accountId cookie⟩
  | getting cookie now =>
    cases h
    exact .inl ⟨_, rfl, finishes_get httl hkept (hreading now rfl) cookie⟩
  | refreshing cookie now =>
    cases h
    exact .inl ⟨_, rfl, finishes_refresh httl hkept (hreading now rfl) cookie systemNow⟩

theorem consistent_initial (ttl : Duration) : Consistent ttl (.initial Client ttl) where
  ttl_eq := rfl
  readings _ _ hnow := by simp [Configuration.initial, CallState.reading] at hnow
  kept cookie := kept_self _ none
  answered _ _ hcompleted := by simp [Configuration.initial, CallState.completed] at hcompleted
  explained _ _ hentry := by simp [Configuration.initial] at hentry

/-- The completed calls stay explained when one is appended that is. -/
theorem explained_concat {completed : Instant × Completed}
    (hlog : ∀ index entry, log[index]? = some entry → Explained ttl (log.take index) entry)
    (hcompleted : Explained ttl log completed) (index : ℕ) (entry : Instant × Completed)
    (hentry : (log ++ [completed])[index]? = some entry) :
    Explained ttl ((log ++ [completed]).take index) entry := by
  rcases Nat.lt_or_ge index log.length with hold | hnew
  · rw [List.getElem?_append_left hold] at hentry
    rw [List.take_append_of_le_length (Nat.le_of_lt hold)]
    exact hlog index entry hentry
  · rw [List.getElem?_append_right hnew] at hentry
    have hindex : index = log.length := by
      have hlt : index - log.length < 1 := (List.getElem?_eq_some_iff.mp hentry).1
      omega
    subst hindex
    rw [Nat.sub_self] at hentry
    obtain rfl := Option.some_inj.mp hentry
    rw [List.take_append_of_le_length le_rfl, List.take_length]
    exact hcompleted

variable [DecidableEq Client] {configuration after : Configuration Client} {event : Event Client}

/-- What holds of every call holds when one of them moves on to where it holds. -/
theorem forall_update (property : CallState → Prop) {calls : Client → CallState} {client : Client}
    (hcalls : ∀ client, property (calls client)) (hmoved : property moved) (other : Client) :
    property (Function.update calls client moved other) :=
  (Function.forall_update_iff calls fun _ state ↦ property state).mpr
    ⟨hmoved, fun other _ ↦ hcalls other⟩ other

/-- A call that starts or is over has read nothing and completed nothing. -/
theorem Consistent.setCall {client : Client} (h : Consistent ttl configuration)
    (hreading : moved.reading = none) (hcompleted : moved.completed = none) :
    Consistent ttl { configuration with
      calls := Function.update configuration.calls client moved } where
  ttl_eq := h.ttl_eq
  readings := forall_update (ReadBefore _) h.readings (by simp [ReadBefore, hreading])
  kept := h.kept
  answered := forall_update (Logged _) h.answered (by simp [Logged, hcompleted])
  explained := h.explained

/-- A call that completes. -/
theorem Consistent.finish {client : Client} {completed : Completed}
    (h : Consistent ttl configuration)
    (hfinishes : Finishes ttl configuration.clock configuration.log next completed) :
    Consistent ttl
      { store := next
        clock := configuration.clock
        calls := Function.update configuration.calls client (.returned completed)
        log := configuration.log ++ [(configuration.clock, completed)] } where
  ttl_eq := hfinishes.ttl_eq
  readings := forall_update (ReadBefore _) h.readings (by simp [ReadBefore, CallState.reading])
  kept := hfinishes.kept
  answered := by
    have hlogged (other : Client) :
        Logged (configuration.log ++ [(configuration.clock, completed)])
          (configuration.calls other) := by
      intro earlier hearlier
      rw [List.map_append]
      exact List.mem_append_left _ (h.answered other earlier hearlier)
    exact forall_update (Logged _) hlogged (by simp [Logged, CallState.completed])
  explained := explained_concat h.explained hfinishes.explained

theorem Consistent.step (h : Consistent ttl configuration)
    (hstep : ConcurrentCookies.step configuration event = some after) : Consistent ttl after := by
  cases event with
  | tick later =>
    obtain ⟨hlater, hafter⟩ := Option.ite_none_right_eq_some.mp hstep
    obtain rfl := Option.some_inj.mp hafter
    exact ⟨h.ttl_eq, fun client now hnow ↦ (h.readings client now hnow).trans hlater,
      h.kept.mono hlater, h.answered, h.explained⟩
  | invoke client call =>
    obtain ⟨-, hafter⟩ := Option.ite_none_right_eq_some.mp hstep
    obtain rfl := Option.some_inj.mp hafter
    exact h.setCall rfl rfl
  | complete client =>
    simp only [ConcurrentCookies.step] at hstep
    split at hstep
    · obtain rfl := Option.some_inj.mp hstep
      exact h.setCall rfl rfl
    · simp at hstep
  | proceed client systemNow =>
    simp only [ConcurrentCookies.step] at hstep
    split at hstep
    · next store moved hadvance =>
      obtain rfl := Option.some_inj.mp hstep
      rcases finishes_of_advance h.ttl_eq h.kept (h.readings client) hadvance with
        ⟨completed, rfl, hfinishes⟩ | ⟨hnone, httl, hkept, hreading⟩
      · exact h.finish hfinishes
      · rw [hnone, Option.toList_none, List.map_nil, List.append_nil]
        exact ⟨httl, forall_update (ReadBefore _) h.readings hreading, hkept,
          forall_update (Logged _) h.answered (by simp [Logged, hnone]), h.explained⟩
    · simp at hstep

/-- In every interleaving, each completed call is explained by the calls that completed before it:
cookies that are found are granted and have a deadline after the reading, cookies that are not found
are not granted or have reached their deadline, and no cookie is pruned before its deadline. -/
theorem explained_of_reachable
    (hreachable : Reachable ConcurrentCookies.step (.initial Client ttl) configuration) :
    (∀ client completed, configuration.calls client = .returned completed →
        completed ∈ configuration.log.map Prod.snd) ∧
      (∀ index entry, configuration.log[index]? = some entry →
        Explained ttl (configuration.log.take index) entry) ∧
      ∀ cookie, Kept (Elapsed configuration.clock) (configuration.store.inner.lookup cookie)
        (granted ttl cookie configuration.log) := by
  have hconsistent : Consistent ttl configuration :=
    invariant_of_reachable _ (Consistent ttl) (fun _ _ _ h hstep ↦ h.step hstep)
      (consistent_initial ttl) hreachable
  refine ⟨fun client completed hreturned ↦ ?_, hconsistent.explained, hconsistent.kept⟩
  exact hconsistent.answered client completed (by rw [hreturned]; rfl)

/-- A refresh reads the clock before the deadline; at the deadline another client's generation
prunes the cookie, and the refresh does not find it. -/
theorem explained_of_reachable_pruned :
    ∃ final : Configuration Bool,
      run ConcurrentCookies.step (.initial Bool 10)
        [.invoke true (.generate ['a'] ['c']), .proceed true 0, .proceed true 0, .proceed true 0,
          .proceed true 0, .complete true, .invoke false (.refresh ['c']), .tick 9,
          .proceed false 0, .tick 10, .invoke true (.generate ['b'] ['d']), .proceed true 0,
          .proceed true 0, .proceed false 0] = some final ∧
      final.log = [(0, .issued ['a'] ['c'] 0), (10, .refreshed ['c'] 9 none)] ∧
      Explained 10 (final.log.take 1) (10, .refreshed ['c'] 9 none) := by
  obtain ⟨final, hrun⟩ : ∃ final : Configuration Bool,
      run ConcurrentCookies.step (.initial Bool 10)
        [.invoke true (.generate ['a'] ['c']), .proceed true 0, .proceed true 0, .proceed true 0,
          .proceed true 0, .complete true, .invoke false (.refresh ['c']), .tick 9,
          .proceed false 0, .tick 10, .invoke true (.generate ['b'] ['d']), .proceed true 0,
          .proceed true 0, .proceed false 0] = some final := ⟨_, rfl⟩
  have hlog : final.log = [(0, .issued ['a'] ['c'] 0), (10, .refreshed ['c'] 9 none)] := by
    obtain rfl := Option.some_inj.mp hrun
    rfl
  refine ⟨final, hrun, hlog, ?_⟩
  exact (explained_of_reachable ⟨_, hrun⟩).2.1 1 _ (by rw [hlog]; rfl)

end Runs

end SolidCommunity.Identity.ConcurrentCookies
