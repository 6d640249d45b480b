import Mathlib.Logic.Function.Basic
import SolidCommunity.Identity.ClientCredentialsStore

/-!
# Concurrent Client Credentials

Each of the two maps of the credentials store has its own lock, so a create, a deletion and a lookup
by label each take two steps, and other clients run in between.  The index can name a token that is
not stored yet or no longer stored, but it only ever names a token under the label that the token
was created with, and no step stores a removed token again.
-/

namespace SolidCommunity.Identity.ConcurrentCredentials

open Foundations.FiniteMap Foundations.Runs Foundations.Text ClientCredentialsStore

/-- A client's call; a create comes with the credentials that it generates. -/
inductive Call (Url : Type*) where
  | create (creds : ClientCredentials Url)
  | delete (id : Str)
  | get (id : Str)
  | findByLabel (label : Str)
deriving DecidableEq

/-- What a call returns. -/
inductive Outcome (Url : Type*) where
  | created (creds : ClientCredentials Url)
  | deleted
  | notFound (message : Str)
  | token (result : Option (ClientCredentials Url))
deriving DecidableEq

/-- Where a call stands between two sections. -/
inductive CallState (Url : Type*) where
  | idle
  | called (call : Call Url)
  | indexing (creds : ClientCredentials Url)
  | unindexing (id : Str) (creds : ClientCredentials Url)
  | fetching (label id : Str)
  | returned (call : Call Url) (outcome : Outcome Url)

variable {Client Url : Type*}

/-- The next section of a call. -/
def advance (store : BaseClientCredentialsStore Url) :
    CallState Url → Option (BaseClientCredentialsStore Url × CallState Url)
  | .called (.create creds) =>
    some ({ store with byId := store.byId.insert creds.id creds }, .indexing creds)
  | .indexing creds =>
    some ({ store with byLabel := store.byLabel.insert creds.label creds.id },
      .returned (.create creds) (.created creds))
  | .called (.delete id) =>
    match store.byId.lookup id with
    | some creds => some ({ store with byId := store.byId.erase id }, .unindexing id creds)
    | none => some (store,
      .returned (.delete id) (.notFound ("client credentials not found: ".toList ++ id)))
  | .unindexing id creds =>
    some ({ store with byLabel := store.byLabel.erase creds.label }, .returned (.delete id) .deleted)
  | .called (.get id) => some (store, .returned (.get id) (.token (store.byId.lookup id)))
  | .called (.findByLabel label) =>
    match store.byLabel.lookup label with
    | some id => some (store, .fetching label id)
    | none => some (store, .returned (.findByLabel label) (.token none))
  | .fetching label id =>
    some (store, .returned (.findByLabel label) (.token (store.byId.lookup id)))
  | _ => none

/-- Everything that one section of a call can do. -/
inductive Section (store : BaseClientCredentialsStore Url) :
    CallState Url → BaseClientCredentialsStore Url → CallState Url → Prop
  | insertById (creds : ClientCredentials Url) :
    Section store (.called (.create creds))
      { store with byId := store.byId.insert creds.id creds } (.indexing creds)
  | insertByLabel (creds : ClientCredentials Url) :
    Section store (.indexing creds)
      { store with byLabel := store.byLabel.insert creds.label creds.id }
      (.returned (.create creds) (.created creds))
  | removeById {id : Str} {creds : ClientCredentials Url}
    (hstored : store.byId.lookup id = some creds) :
    Section store (.called (.delete id)) { store with byId := store.byId.erase id }
      (.unindexing id creds)
  | missing {id : Str} (hstored : store.byId.lookup id = none) :
    Section store (.called (.delete id)) store
      (.returned (.delete id) (.notFound ("client credentials not found: ".toList ++ id)))
  | removeByLabel (id : Str) (creds : ClientCredentials Url) :
    Section store (.unindexing id creds)
      { store with byLabel := store.byLabel.erase creds.label } (.returned (.delete id) .deleted)
  | get (id : Str) :
    Section store (.called (.get id)) store (.returned (.get id) (.token (store.byId.lookup id)))
  | indexed {label id : Str} (hindex : store.byLabel.lookup label = some id) :
    Section store (.called (.findByLabel label)) store (.fetching label id)
  | unindexed {label : Str} (hindex : store.byLabel.lookup label = none) :
    Section store (.called (.findByLabel label)) store (.returned (.findByLabel label) (.token none))
  | fetch (label id : Str) :
    Section store (.fetching label id) store
      (.returned (.findByLabel label) (.token (store.byId.lookup id)))

theorem section_of_advance {store next : BaseClientCredentialsStore Url}
    {state moved : CallState Url} (h : advance store state = some (next, moved)) :
    Section store state next moved := by
  cases state with
  | idle | returned => simp [advance] at h
  | called call =>
    cases call with
    | create creds =>
      cases h
      exact .insertById creds
    | delete id =>
      rw [advance] at h
      split at h
      · next hstored =>
        cases h
        exact .removeById hstored
      · next hstored =>
        cases h
        exact .missing hstored
    | get id =>
      cases h
      exact .get id
    | findByLabel label =>
      rw [advance] at h
      split at h
      · next hindex =>
        cases h
        exact .indexed hindex
      · next hindex =>
        cases h
        exact .unindexed hindex
  | indexing creds =>
    cases h
    exact .insertByLabel creds
  | unindexing id creds =>
    cases h
    exact .removeByLabel id creds
  | fetching label id =>
    cases h
    exact .fetch label id

/-! ## Labels -/

section Labels

variable {generated : HashMap Str (ClientCredentials Url)} {store next : BaseClientCredentialsStore Url}
  {state moved : CallState Url}

/-- Both maps hold generated tokens only, each under its own id and its own label. -/
structure StoreSound (generated : HashMap Str (ClientCredentials Url))
    (store : BaseClientCredentialsStore Url) : Prop where
  named : ∀ id creds, generated.lookup id = some creds → creds.id = id
  stored : ∀ id creds, store.byId.lookup id = some creds → generated.lookup id = some creds
  indexed : ∀ label id, store.byLabel.lookup label = some id →
    ∃ creds, generated.lookup id = some creds ∧ creds.label = label

/-- What a call in flight knows about the generated tokens. -/
def CallSound (generated : HashMap Str (ClientCredentials Url)) : CallState Url → Prop
  | .called (.create creds) => generated.lookup creds.id = some creds
  | .indexing creds => generated.lookup creds.id = some creds
  | .fetching label id => ∃ creds, generated.lookup id = some creds ∧ creds.label = label
  | .returned (.findByLabel label) (.token (some creds)) => creds.label = label
  | _ => True

/-- Generating another token does not affect the calls in flight. -/
theorem CallSound.insert (h : CallSound generated state) {creds : ClientCredentials Url}
    (hfresh : creds.id ∉ generated) : CallSound (generated.insert creds.id creds) state := by
  unfold CallSound at h ⊢
  split
  · exact lookup_insert_of_notMem hfresh h
  · exact lookup_insert_of_notMem hfresh h
  · obtain ⟨token, htoken, hlabel⟩ := h
    exact ⟨token, lookup_insert_of_notMem hfresh htoken, hlabel⟩
  · exact h
  · trivial

theorem StoreSound.insert (h : StoreSound generated store) {creds : ClientCredentials Url}
    (hfresh : creds.id ∉ generated) : StoreSound (generated.insert creds.id creds) store := by
  constructor
  · intro id token htoken
    rcases lookup_insert_cases htoken with ⟨hid, rfl⟩ | ⟨-, htoken⟩
    · exact hid.symm
    · exact h.named id token htoken
  · exact fun id token htoken ↦ lookup_insert_of_notMem hfresh (h.stored id token htoken)
  · intro label id hindex
    obtain ⟨token, htoken, hlabel⟩ := h.indexed label id hindex
    exact ⟨token, lookup_insert_of_notMem hfresh htoken, hlabel⟩

/-- Storing a generated token. -/
theorem StoreSound.insertById (h : StoreSound generated store) {creds : ClientCredentials Url}
    (hcreds : generated.lookup creds.id = some creds) :
    StoreSound generated { store with byId := store.byId.insert creds.id creds } where
  named := h.named
  stored id token htoken := by
    rcases lookup_insert_cases htoken with ⟨rfl, rfl⟩ | ⟨-, htoken⟩
    · exact hcreds
    · exact h.stored id token htoken
  indexed := h.indexed

/-- Indexing a generated token under its label. -/
theorem StoreSound.insertByLabel (h : StoreSound generated store) {creds : ClientCredentials Url}
    (hcreds : generated.lookup creds.id = some creds) :
    StoreSound generated { store with byLabel := store.byLabel.insert creds.label creds.id } where
  named := h.named
  stored := h.stored
  indexed label id hindex := by
    rcases lookup_insert_cases hindex with ⟨hlabel, rfl⟩ | ⟨-, hindex⟩
    · exact ⟨creds, hcreds, hlabel.symm⟩
    · exact h.indexed label id hindex

theorem StoreSound.eraseById (h : StoreSound generated store) (id : Str) :
    StoreSound generated { store with byId := store.byId.erase id } where
  named := h.named
  stored other token htoken := h.stored other token (lookup_of_erase htoken).2
  indexed := h.indexed

theorem StoreSound.eraseByLabel (h : StoreSound generated store) (label : Str) :
    StoreSound generated { store with byLabel := store.byLabel.erase label } where
  named := h.named
  stored := h.stored
  indexed other id hindex := h.indexed other id (lookup_of_erase hindex).2

/-- A section of a call keeps both maps sound, and what it learns is sound. -/
theorem StoreSound.advance (h : StoreSound generated store) (hcall : CallSound generated state)
    (hadvance : ConcurrentCredentials.advance store state = some (next, moved)) :
    StoreSound generated next ∧ CallSound generated moved := by
  cases section_of_advance hadvance with
  | insertById creds => exact ⟨h.insertById hcall, hcall⟩
  | insertByLabel creds => exact ⟨h.insertByLabel hcall, trivial⟩
  | removeById => exact ⟨h.eraseById _, trivial⟩
  | removeByLabel id creds => exact ⟨h.eraseByLabel creds.label, trivial⟩
  | indexed hindex => exact ⟨h, h.indexed _ _ hindex⟩
  | missing | get | unindexed => exact ⟨h, trivial⟩
  | fetch label id =>
    refine ⟨h, ?_⟩
    obtain ⟨token, htoken, hlabel⟩ := hcall
    cases hstored : store.byId.lookup id with
    | none => trivial
    | some found =>
      obtain rfl : token = found :=
        Option.some_inj.mp (htoken.symm.trans (h.stored id found hstored))
      exact hlabel

end Labels

/-! ## Single sections -/

section Sections

variable {store next : BaseClientCredentialsStore Url} {state moved : CallState Url}

/-- The call that is in flight. -/
def CallState.call : CallState Url → Option (Call Url)
  | .idle => none
  | .called call => some call
  | .indexing creds => some (.create creds)
  | .unindexing id _ => some (.delete id)
  | .fetching label _ => some (.findByLabel label)
  | .returned call _ => some call

/-- What the call in flight is about to return. -/
def CallState.outcome : CallState Url → Option (Outcome Url)
  | .returned _ outcome => some outcome
  | _ => none

/-- The id whose token the call in flight has removed. -/
def CallState.removed : CallState Url → Option Str
  | .unindexing id _ => some id
  | .returned (.delete id) .deleted => some id
  | _ => none

/-- The sections of a create that runs alone are the create of the store. -/
theorem advance_create (store : BaseClientCredentialsStore Url) (creds : ClientCredentials Url) :
    (advance store (.called (.create creds))).bind (fun result ↦ advance result.1 result.2) =
      some ((store.create creds.label creds.webId creds.accountId creds.id creds.secret).1,
        .returned (.create creds) (.created creds)) := rfl

/-- The sections of a deletion that runs alone are the deletion of the store. -/
theorem advance_delete {id : Str} {creds : ClientCredentials Url} (h : store.get id = some creds) :
    (advance store (.called (.delete id))).bind (fun result ↦ advance result.1 result.2) =
      some ((store.delete id).1, .returned (.delete id) .deleted) := by
  have hstored : store.byId.lookup id = some creds := h
  simp only [advance, BaseClientCredentialsStore.delete, hstored, Option.bind_some]

/-- A section stores no token but that of its own create. -/
theorem lookup_of_advance {id : Str} {token : ClientCredentials Url}
    (hadvance : advance store state = some (next, moved))
    (htoken : next.byId.lookup id = some token) :
    store.byId.lookup id = some token ∨ (state = .called (.create token) ∧ token.id = id) := by
  cases section_of_advance hadvance with
  | insertById creds =>
    rcases lookup_insert_cases htoken with ⟨hid, rfl⟩ | ⟨-, htoken⟩
    · exact .inr ⟨rfl, hid.symm⟩
    · exact .inl htoken
  | removeById => exact .inl (lookup_of_erase htoken).2
  | _ => exact .inl htoken

/-- A call never returns to its beginning. -/
theorem ne_called_of_advance (hadvance : advance store state = some (next, moved))
    (call : Call Url) : moved ≠ .called call := by
  cases section_of_advance hadvance <;> simp

theorem call_of_advance (hadvance : advance store state = some (next, moved)) :
    moved.call = state.call := by
  cases section_of_advance hadvance <;> rfl

/-- A call that has returned makes no further step. -/
theorem outcome_of_advance (hadvance : advance store state = some (next, moved)) :
    state.outcome = none := by
  cases section_of_advance hadvance <;> rfl

/-- A call removes a token in the section that finds it. -/
theorem removed_of_advance {id : Str} (hadvance : advance store state = some (next, moved))
    (hremoved : moved.removed = some id) :
    state.removed = some id ∨
      ((store.byId.lookup id).isSome = true ∧ next.byId = store.byId.erase id) := by
  cases section_of_advance hadvance with
  | removeById hstored =>
    obtain rfl := Option.some_inj.mp hremoved
    exact .inr ⟨Option.isSome_of_eq_some hstored, rfl⟩
  | removeByLabel => exact .inl hremoved
  | _ => simp [CallState.removed] at hremoved

/-- A lookup returns a token that is stored when it reads the primary map. -/
theorem exists_lookup_of_advance {token : ClientCredentials Url}
    (hadvance : advance store state = some (next, moved))
    (houtcome : moved.outcome = some (.token (some token))) :
    ∃ id, store.byId.lookup id = some token := by
  cases section_of_advance hadvance with
  | get id => exact ⟨id, Outcome.token.inj (Option.some_inj.mp houtcome)⟩
  | fetch label id => exact ⟨id, Outcome.token.inj (Option.some_inj.mp houtcome)⟩
  | _ => simp [CallState.outcome] at houtcome

end Sections

/-! ## Interleavings -/

/-- The store, the calls in flight, and every token generated so far under its id. -/
structure Configuration (Client Url : Type*) where
  store : BaseClientCredentialsStore Url
  calls : Client → CallState Url
  generated : HashMap Str (ClientCredentials Url)

namespace Configuration

def initial (Client Url : Type*) : Configuration Client Url where
  store := BaseClientCredentialsStore.new
  calls _ := .idle
  generated := ∅

/-- Move one call. -/
def move [DecidableEq Client] (configuration : Configuration Client Url)
    (store : BaseClientCredentialsStore Url) (client : Client) (moved : CallState Url) :
    Configuration Client Url :=
  { configuration with store := store, calls := Function.update configuration.calls client moved }

/-- Begin a create, whose credentials are generated first. -/
def beginCreate [DecidableEq Client] (configuration : Configuration Client Url) (client : Client)
    (creds : ClientCredentials Url) : Configuration Client Url where
  store := configuration.store
  calls := Function.update configuration.calls client (.called (.create creds))
  generated := configuration.generated.insert creds.id creds

end Configuration

inductive Event (Client Url : Type*) where
  | invoke (client : Client) (call : Call Url)
  | advance (client : Client)
  | complete (client : Client) (call : Call Url) (outcome : Outcome Url)

/-- The token was generated, is not stored, and no create is about to store it. -/
structure Retired (id : Str) (configuration : Configuration Client Url) : Prop where
  generated : id ∈ configuration.generated
  absent : configuration.store.byId.lookup id = none
  creators : ∀ client creds, configuration.calls client = .called (.create creds) → creds.id ≠ id

/-- The maps and the calls in flight are sound, no two creates are about to store the same id and
none a stored one, and what a call has removed is retired. -/
structure Consistent (configuration : Configuration Client Url) : Prop where
  store : StoreSound configuration.generated configuration.store
  calls : ∀ client, CallSound configuration.generated (configuration.calls client)
  absent : ∀ client creds, configuration.calls client = .called (.create creds) →
    configuration.store.byId.lookup creds.id = none
  unique : ∀ client other creds creds', configuration.calls client = .called (.create creds) →
    configuration.calls other = .called (.create creds') → creds.id = creds'.id → client = other
  removed : ∀ client id, (configuration.calls client).removed = some id → Retired id configuration

theorem consistent_initial : Consistent (Configuration.initial Client Url) where
  store := by constructor <;> simp [Configuration.initial, BaseClientCredentialsStore.new]
  calls _ := trivial
  absent client creds h := by simp [Configuration.initial] at h
  unique client other creds creds' h := by simp [Configuration.initial] at h
  removed client id h := by simp [Configuration.initial, CallState.removed] at h

/-- The token of a create that is about to store it was generated. -/
theorem Consistent.mem_generated {configuration : Configuration Client Url}
    (h : Consistent configuration) {client : Client} {creds : ClientCredentials Url}
    (hcall : configuration.calls client = .called (.create creds)) :
    creds.id ∈ configuration.generated := by
  have hsound := h.calls client
  rw [hcall] at hsound
  exact Finmap.mem_of_lookup_eq_some hsound

variable [DecidableEq Client]

/-- After a move, a client is the one that moved or is where it was. -/
theorem update_cases {calls : Client → CallState Url} {client other : Client}
    {moved state : CallState Url} (h : Function.update calls client moved other = state) :
    (other = client ∧ moved = state) ∨ (other ≠ client ∧ calls other = state) := by
  rw [Function.update_apply] at h
  split at h
  · next heq => exact .inl ⟨heq, h⟩
  · next hne => exact .inr ⟨hne, h⟩

variable [DecidableEq Url]

/-- One step of one client; a generated id was never generated before. -/
def step (configuration : Configuration Client Url) :
    Event Client Url → Option (Configuration Client Url)
  | .invoke client call =>
    match configuration.calls client, call with
    | .idle, .create creds =>
      if creds.id ∈ configuration.generated then none
      else some (configuration.beginCreate client creds)
    | .idle, call => some (configuration.move configuration.store client (.called call))
    | _, _ => none
  | .advance client =>
    (advance configuration.store (configuration.calls client)).map fun result ↦
      configuration.move result.1 client result.2
  | .complete client call outcome =>
    match configuration.calls client with
    | .returned call' outcome' =>
      if call' = call ∧ outcome' = outcome then
        some (configuration.move configuration.store client .idle)
      else none
    | _ => none

section Steps

variable {configuration next : Configuration Client Url} {event : Event Client Url}

/-- Everything that one step can do. -/
theorem step_cases (h : step configuration event = some next) :
    (∃ client creds, event = .invoke client (.create creds) ∧
      configuration.calls client = .idle ∧ creds.id ∉ configuration.generated ∧
      next = configuration.beginCreate client creds) ∨
    (∃ client call, event = .invoke client call ∧ configuration.calls client = .idle ∧
      (∀ creds, call ≠ .create creds) ∧
      next = configuration.move configuration.store client (.called call)) ∨
    (∃ client store moved, event = .advance client ∧
      advance configuration.store (configuration.calls client) = some (store, moved) ∧
      next = configuration.move store client moved) ∨
    (∃ client call outcome, event = .complete client call outcome ∧
      configuration.calls client = .returned call outcome ∧
      next = configuration.move configuration.store client .idle) := by
  cases event with
  | invoke client call =>
    cases hidle : configuration.calls client with
    | idle =>
      cases call with
      | create creds =>
        simp only [step, hidle, Option.ite_none_left_eq_some, Option.some_inj] at h
        exact .inl ⟨client, creds, rfl, hidle, h.1, h.2.symm⟩
      | delete id | get id | findByLabel label =>
        simp only [step, hidle, Option.some_inj] at h
        exact .inr (.inl ⟨client, _, rfl, hidle, by simp, h.symm⟩)
    | _ => simp [step, hidle] at h
  | advance client =>
    obtain ⟨⟨store, moved⟩, hadvance, rfl⟩ := Option.map_eq_some_iff.mp h
    exact .inr (.inr (.inl ⟨client, store, moved, rfl, hadvance, rfl⟩))
  | complete client call outcome =>
    cases hreturned : configuration.calls client with
    | returned call' outcome' =>
      simp only [step, hreturned, Option.ite_none_right_eq_some, Option.some_inj] at h
      obtain ⟨⟨rfl, rfl⟩, rfl⟩ := h
      exact .inr (.inr (.inr ⟨client, _, _, rfl, hreturned, rfl⟩))
    | _ => simp [step, hreturned] at h

end Steps

/-! ## Preservation -/

section Preservation

variable {configuration next : Configuration Client Url} {event : Event Client Url}

/-- No step stores a retired token again. -/
theorem Retired.step {id : Str} (h : Retired id configuration)
    (hstep : ConcurrentCredentials.step configuration event = some next) : Retired id next := by
  obtain ⟨client, creds, rfl, -, hfresh, rfl⟩ | ⟨client, call, rfl, -, hcall, rfl⟩ |
    ⟨client, store, moved, rfl, hadvance, rfl⟩ | ⟨client, call, outcome, rfl, -, rfl⟩ :=
    step_cases hstep
  · refine ⟨Finmap.mem_insert.mpr (.inr h.generated), h.absent, fun other creds' hother ↦ ?_⟩
    rcases update_cases hother with ⟨-, hmoved⟩ | ⟨-, hother⟩
    · obtain rfl : creds = creds' := by simpa using hmoved
      rintro rfl
      exact hfresh h.generated
    · exact h.creators other creds' hother
  · refine ⟨h.generated, h.absent, fun other creds hother ↦ ?_⟩
    rcases update_cases hother with ⟨-, hmoved⟩ | ⟨-, hother⟩
    · exact absurd (CallState.called.inj hmoved) (hcall creds)
    · exact h.creators other creds hother
  · refine ⟨h.generated, ?_, fun other creds hother ↦ ?_⟩
    · by_contra hstored
      obtain ⟨token, htoken⟩ := Option.ne_none_iff_exists'.mp hstored
      rcases lookup_of_advance hadvance htoken with hbefore | ⟨hcreates, hid⟩
      · rw [h.absent] at hbefore
        simp at hbefore
      · exact h.creators client token hcreates hid
    · rcases update_cases hother with ⟨-, hmoved⟩ | ⟨-, hother⟩
      · exact absurd hmoved (ne_called_of_advance hadvance _)
      · exact h.creators other creds hother
  · refine ⟨h.generated, h.absent, fun other creds hother ↦ ?_⟩
    rcases update_cases hother with ⟨-, hmoved⟩ | ⟨-, hother⟩
    · simp at hmoved
    · exact h.creators other creds hother

/-- A client moves without beginning a create. -/
theorem Consistent.move (h : Consistent configuration) {client : Client}
    {store : BaseClientCredentialsStore Url} {moved : CallState Url}
    (hstep : ConcurrentCredentials.step configuration event =
      some (configuration.move store client moved))
    (hstore : StoreSound configuration.generated store)
    (hcall : CallSound configuration.generated moved)
    (hstored : ∀ id token, store.byId.lookup id = some token →
      configuration.store.byId.lookup id = some token ∨
        (configuration.calls client = .called (.create token) ∧ token.id = id))
    (hmoved : ∀ creds, moved ≠ .called (.create creds))
    (hremoved : ∀ id, moved.removed = some id → Retired id (configuration.move store client moved)) :
    Consistent (configuration.move store client moved) where
  store := hstore
  calls other := by
    rcases update_cases (Eq.refl ((configuration.move store client moved).calls other)) with
      ⟨-, hmoved⟩ | ⟨-, hother⟩
    · rw [← hmoved]
      exact hcall
    · rw [← hother]
      exact h.calls other
  absent other creds hother := by
    rcases update_cases hother with ⟨-, hcreates⟩ | ⟨hne, hother⟩
    · exact absurd hcreates (hmoved creds)
    · by_contra hpresent
      obtain ⟨token, htoken⟩ := Option.ne_none_iff_exists'.mp hpresent
      rcases hstored creds.id token htoken with hbefore | ⟨hcreates, hid⟩
      · rw [h.absent other creds hother] at hbefore
        simp at hbefore
      · exact hne (h.unique other client creds token hother hcreates hid.symm)
  unique first second creds creds' hfirst hsecond hid := by
    rcases update_cases hfirst with ⟨-, hcreates⟩ | ⟨-, hfirst⟩
    · exact absurd hcreates (hmoved creds)
    · rcases update_cases hsecond with ⟨-, hcreates⟩ | ⟨-, hsecond⟩
      · exact absurd hcreates (hmoved creds')
      · exact h.unique first second creds creds' hfirst hsecond hid
  removed other id hother := by
    rcases update_cases (Eq.refl ((configuration.move store client moved).calls other)) with
      ⟨-, hmoved⟩ | ⟨-, hsame⟩
    · exact hremoved id (hmoved ▸ hother)
    · exact (h.removed other id (hsame ▸ hother)).step hstep

/-- A client begins a create with a freshly generated id. -/
theorem Consistent.invokeCreate (h : Consistent configuration) {client : Client}
    {creds : ClientCredentials Url} (hfresh : creds.id ∉ configuration.generated)
    (hstep : ConcurrentCredentials.step configuration event =
      some (configuration.beginCreate client creds)) :
    Consistent (configuration.beginCreate client creds) where
  store := h.store.insert hfresh
  calls other := by
    rcases update_cases (Eq.refl ((configuration.beginCreate client creds).calls other)) with
      ⟨-, hmoved⟩ | ⟨-, hother⟩
    · rw [← hmoved]
      exact Finmap.lookup_insert _
    · rw [← hother]
      exact (h.calls other).insert hfresh
  absent other creds' hother := by
    rcases update_cases hother with ⟨-, hmoved⟩ | ⟨-, hother⟩
    · obtain rfl : creds = creds' := by simpa using hmoved
      by_contra hpresent
      obtain ⟨token, htoken⟩ := Option.ne_none_iff_exists'.mp hpresent
      exact hfresh (Finmap.mem_of_lookup_eq_some (h.store.stored _ token htoken))
    · exact h.absent other creds' hother
  unique first second creds₁ creds₂ hfirst hsecond hid := by
    rcases update_cases hfirst with ⟨hfirst, hmoved₁⟩ | ⟨-, hfirst⟩ <;>
      rcases update_cases hsecond with ⟨hsecond, hmoved₂⟩ | ⟨-, hsecond⟩
    · rw [hfirst, hsecond]
    · obtain rfl : creds = creds₁ := by simpa using hmoved₁
      exact absurd (hid ▸ h.mem_generated hsecond) hfresh
    · obtain rfl : creds = creds₂ := by simpa using hmoved₂
      exact absurd (hid ▸ h.mem_generated hfirst) hfresh
    · exact h.unique first second creds₁ creds₂ hfirst hsecond hid
  removed other id hother := by
    rcases update_cases (Eq.refl ((configuration.beginCreate client creds).calls other)) with
      ⟨-, hmoved⟩ | ⟨-, hsame⟩
    · rw [← hmoved] at hother
      simp [CallState.removed] at hother
    · exact (h.removed other id (hsame ▸ hother)).step hstep

theorem Consistent.step (h : Consistent configuration)
    (hstep : ConcurrentCredentials.step configuration event = some next) : Consistent next := by
  obtain ⟨client, creds, rfl, -, hfresh, rfl⟩ | ⟨client, call, rfl, -, hcall, rfl⟩ |
    ⟨client, store, moved, rfl, hadvance, rfl⟩ | ⟨client, call, outcome, rfl, -, rfl⟩ :=
    step_cases hstep
  · exact h.invokeCreate hfresh hstep
  · refine h.move hstep h.store ?_ (fun id token htoken ↦ .inl htoken)
      (fun creds hcreates ↦ hcall creds (CallState.called.inj hcreates)) ?_
    · cases call with
      | create creds => exact absurd rfl (hcall creds)
      | _ => trivial
    · intro id hid
      simp [CallState.removed] at hid
  · obtain ⟨hstore, hmoved⟩ := h.store.advance (h.calls client) hadvance
    refine h.move hstep hstore hmoved (fun id token ↦ lookup_of_advance hadvance)
      (fun creds ↦ ne_called_of_advance hadvance _) fun id hid ↦ ?_
    rcases removed_of_advance hadvance hid with hbefore | ⟨hpresent, herased⟩
    · exact (h.removed client id hbefore).step hstep
    · -- The token was stored, so no create is about to store it.
      obtain ⟨token, htoken⟩ := Option.isSome_iff_exists.mp hpresent
      refine ⟨Finmap.mem_of_lookup_eq_some (h.store.stored id token htoken), ?_, ?_⟩
      · exact (congrArg (Finmap.lookup id) herased).trans (Finmap.lookup_erase id _)
      · rintro other creds hother rfl
        rcases update_cases hother with ⟨-, hcreates⟩ | ⟨-, hother⟩
        · exact ne_called_of_advance hadvance _ hcreates
        · rw [h.absent other creds hother] at htoken
          simp at htoken
  · refine h.move hstep h.store trivial (fun id token htoken ↦ .inl htoken) ?_ ?_
    · simp
    · intro id hid
      simp [CallState.removed] at hid

end Preservation

/-! ## Runs -/

section Runs

variable {configuration next final : Configuration Client Url} {event : Event Client Url}
  {events : List (Event Client Url)} {reader : Client} {call : Call Url}

/-- The event is not the return of the client's call. -/
def Event.NotReturn (client : Client) (event : Event Client Url) : Prop :=
  ∀ call outcome, event ≠ .complete client call outcome

/-- A call in flight that does not return stays where it is or makes its own next step. -/
theorem calls_step (hbusy : (configuration.calls reader).call = some call)
    (hreturn : event.NotReturn reader) (hstep : step configuration event = some next) :
    next.calls reader = configuration.calls reader ∨
      ∃ store moved, advance configuration.store (configuration.calls reader) = some (store, moved) ∧
        next.calls reader = moved := by
  obtain ⟨client, creds, rfl, hidle, -, rfl⟩ | ⟨client, call, rfl, hidle, -, rfl⟩ |
    ⟨client, store, moved, rfl, hadvance, rfl⟩ | ⟨client, call, outcome, rfl, -, rfl⟩ :=
    step_cases hstep
  · have hne : reader ≠ client := by
      rintro rfl
      simp [hidle, CallState.call] at hbusy
    exact .inl (Function.update_of_ne hne _ _)
  · have hne : reader ≠ client := by
      rintro rfl
      simp [hidle, CallState.call] at hbusy
    exact .inl (Function.update_of_ne hne _ _)
  · by_cases hclient : reader = client
    · subst hclient
      exact .inr ⟨store, moved, hadvance, Function.update_self _ _ _⟩
    · exact .inl (Function.update_of_ne hclient _ _)
  · have hne : reader ≠ client := by
      rintro rfl
      exact hreturn call outcome rfl
    exact .inl (Function.update_of_ne hne _ _)

/-- A result stays until it is returned. -/
theorem returned_of_run {outcome : Outcome Url}
    (hreturned : configuration.calls reader = .returned call outcome)
    (hreturns : ∀ event ∈ events, event.NotReturn reader)
    (hrun : run step configuration events = some final) :
    final.calls reader = .returned call outcome := by
  apply invariant_of_everyStep step _ (fun configuration ↦
    configuration.calls reader = .returned call outcome) ?_ hreturned
    ((everyStep_true step configuration events).and_forall_mem step hreturns) hrun
  intro configuration event next hreturned hevent hstep
  have hbusy : (configuration.calls reader).call = some call := by
    rw [hreturned]
    rfl
  rcases calls_step hbusy hevent.2 hstep with hsame | ⟨store, moved, hadvance, -⟩
  · rw [hsame, hreturned]
  · have hnone := outcome_of_advance hadvance
    rw [hreturned] at hnone
    simp [CallState.outcome] at hnone

theorem consistent_of_run (hconsistent : Consistent configuration)
    (hrun : run step configuration events = some final) : Consistent final :=
  invariant_of_run step Consistent (fun _ _ _ h hstep ↦ h.step hstep) hconsistent hrun

theorem retired_of_run {id : Str} (hretired : Retired id configuration)
    (hrun : run step configuration events = some final) : Retired id final :=
  invariant_of_run step (Retired id) (fun _ _ _ h hstep ↦ h.step hstep) hretired hrun

/-- A token that a call in flight comes to return is stored at some moment on the way. -/
theorem exists_stored_of_run {token : ClientCredentials Url}
    (hconsistent : Consistent configuration)
    (hbusy : (configuration.calls reader).call = some call)
    (hpending : (configuration.calls reader).outcome = none)
    (hreturns : ∀ event ∈ events, event.NotReturn reader)
    (hrun : run step configuration events = some final)
    (hreturned : (final.calls reader).outcome = some (.token (some token))) :
    ∃ first second middle, events = first ++ second ∧
      run step configuration first = some middle ∧
      middle.store.byId.lookup token.id = some token := by
  induction events generalizing configuration with
  | nil =>
    obtain rfl : configuration = final := by simpa using hrun
    rw [hpending] at hreturned
    simp at hreturned
  | cons event events ih =>
    obtain ⟨next, hstep, hrest⟩ := (run_cons_eq_some step).mp hrun
    rw [List.forall_mem_cons] at hreturns
    -- Unless this step produces the result, the moment lies in the rest of the run.
    have hlater (hbusy : (next.calls reader).call = some call)
        (hpending : (next.calls reader).outcome = none) :
        ∃ first second middle, event :: events = first ++ second ∧
          run step configuration first = some middle ∧
          middle.store.byId.lookup token.id = some token := by
      obtain ⟨first, second, middle, rfl, hfirst, htoken⟩ :=
        ih (hconsistent.step hstep) hbusy hpending hreturns.2 hrest
      exact ⟨event :: first, second, middle, rfl,
        (run_cons_eq_some step).mpr ⟨next, hstep, hfirst⟩, htoken⟩
    rcases calls_step hbusy hreturns.1 hstep with hsame | ⟨store, moved, hadvance, hmoved⟩
    · exact hlater (hsame ▸ hbusy) (hsame ▸ hpending)
    · have hcall : moved.call = some call := (call_of_advance hadvance).trans hbusy
      cases moved with
      | returned call' outcome =>
        rw [returned_of_run hmoved hreturns.2 hrest] at hreturned
        obtain rfl : outcome = .token (some token) := Option.some_inj.mp hreturned
        obtain ⟨id, htoken⟩ := exists_lookup_of_advance hadvance rfl
        have hid : token.id = id :=
          hconsistent.store.named id token (hconsistent.store.stored id token htoken)
        exact ⟨[], event :: events, configuration, rfl, rfl, hid ▸ htoken⟩
      | _ => exact hlater (by rw [hmoved, hcall]) (by rw [hmoved]; rfl)

theorem called_of_invoke (hstep : step configuration (.invoke reader call) = some next) :
    next.calls reader = .called call := by
  obtain ⟨client, creds, hevent, -, -, rfl⟩ | ⟨client, call', hevent, -, -, rfl⟩ |
    ⟨client, store, moved, hevent, -⟩ | ⟨client, call', outcome, hevent, -⟩ := step_cases hstep
  · obtain ⟨rfl, rfl⟩ := Event.invoke.inj hevent
    exact Function.update_self _ _ _
  · obtain ⟨rfl, rfl⟩ := Event.invoke.inj hevent
    exact Function.update_self _ _ _
  · simp at hevent
  · simp at hevent

theorem returned_of_complete {outcome : Outcome Url}
    (hstep : step configuration (.complete reader call outcome) = some next) :
    configuration.calls reader = .returned call outcome := by
  obtain ⟨client, creds, hevent, -⟩ | ⟨client, call', hevent, -⟩ |
    ⟨client, store, moved, hevent, -⟩ | ⟨client, call', outcome', hevent, hreturned, -⟩ :=
    step_cases hstep
  · simp at hevent
  · simp at hevent
  · simp at hevent
  · obtain ⟨rfl, rfl, rfl⟩ := Event.complete.inj hevent
    exact hreturned

/-- A call from its invocation to its return with a token. -/
theorem exists_stored_of_call {token : ClientCredentials Url} {during : List (Event Client Url)}
    (hconsistent : Consistent configuration) (hreturns : ∀ event ∈ during, event.NotReturn reader)
    (hrun : run step configuration (.invoke reader call ::
      (during ++ [.complete reader call (.token (some token))])) = some final) :
    (∃ answered, run step configuration (.invoke reader call :: during) = some answered ∧
      answered.calls reader = .returned call (.token (some token))) ∧
    ∃ first second middle, during = first ++ second ∧
      run step configuration (.invoke reader call :: first) = some middle ∧
      middle.store.byId.lookup token.id = some token := by
  obtain ⟨called, hinvoke, hrun⟩ := (run_cons_eq_some step).mp hrun
  obtain ⟨answered, hduring, hrun⟩ := (run_append_eq_some step).mp hrun
  obtain ⟨idle, hcomplete, -⟩ := (run_cons_eq_some step).mp hrun
  have hreturned := returned_of_complete hcomplete
  have hcalled := called_of_invoke hinvoke
  constructor
  · exact ⟨answered, (run_cons_eq_some step).mpr ⟨called, hinvoke, hduring⟩, hreturned⟩
  · obtain ⟨first, second, middle, hsplit, hfirst, htoken⟩ :=
      exists_stored_of_run (hconsistent.step hinvoke) (by rw [hcalled]; rfl) (by rw [hcalled]; rfl)
        hreturns hduring (by rw [hreturned]; rfl)
    exact ⟨first, second, middle, hsplit,
      (run_cons_eq_some step).mpr ⟨called, hinvoke, hfirst⟩, htoken⟩

/-- A lookup by label that returns a token returns one with that label, which was stored at some
moment during the call; and once the deletion of a token has returned, no call that starts later
returns the token. -/
theorem lookup_sound_and_removal_final :
    (∀ (reader : Client) (label : Str) (token : ClientCredentials Url)
        (before during : List (Event Client Url)) (final : Configuration Client Url),
      (∀ event ∈ during, event.NotReturn reader) →
      run step (Configuration.initial Client Url) (before ++ .invoke reader (.findByLabel label) ::
        (during ++ [.complete reader (.findByLabel label) (.token (some token))])) = some final →
      token.label = label ∧ ∃ first second middle, during = first ++ second ∧
        run step (Configuration.initial Client Url)
          (before ++ .invoke reader (.findByLabel label) :: first) = some middle ∧
        middle.store.byId.lookup token.id = some token) ∧
    ∀ (remover reader : Client) (call : Call Url) (token : ClientCredentials Url)
        (before between during : List (Event Client Url)),
      (∀ event ∈ during, event.NotReturn reader) →
      run step (Configuration.initial Client Url)
        (before ++ .complete remover (.delete token.id) .deleted :: (between ++
          .invoke reader call :: (during ++ [.complete reader call (.token (some token))]))) =
        none := by
  constructor
  · intro reader label token before during final hreturns hrun
    obtain ⟨start, hbefore, hrun⟩ := (run_append_eq_some step).mp hrun
    have hconsistent := consistent_of_run consistent_initial hbefore
    obtain ⟨⟨answered, hanswered, hreturned⟩, first, second, middle, hsplit, hfirst, htoken⟩ :=
      exists_stored_of_call hconsistent hreturns hrun
    have hsound := (consistent_of_run hconsistent hanswered).calls reader
    rw [hreturned] at hsound
    exact ⟨hsound, first, second, middle, hsplit,
      (run_append_eq_some step).mpr ⟨start, hbefore, hfirst⟩, htoken⟩
  · intro remover reader call token before between during hreturns
    rw [Option.eq_none_iff_forall_ne_some]
    intro final hrun
    obtain ⟨removed, hbefore, hrun⟩ := (run_append_eq_some step).mp hrun
    obtain ⟨released, hcomplete, hrun⟩ := (run_cons_eq_some step).mp hrun
    obtain ⟨start, hbetween, hrun⟩ := (run_append_eq_some step).mp hrun
    have hconsistent := consistent_of_run consistent_initial hbefore
    -- The deletion retired its token before it returned.
    have hretired : Retired token.id removed := by
      apply hconsistent.removed remover
      rw [returned_of_complete hcomplete]
      rfl
    have hretired := retired_of_run (hretired.step hcomplete) hbetween
    have hconsistent := consistent_of_run (hconsistent.step hcomplete) hbetween
    obtain ⟨-, first, second, middle, -, hfirst, htoken⟩ :=
      exists_stored_of_call hconsistent hreturns hrun
    rw [(retired_of_run hretired hfirst).absent] at htoken
    simp at htoken

/-- A token is created and deleted, up to the return of the deletion. -/
def createAndDelete : List (Event Bool Unit) :=
  [.invoke true (.create ⟨['1'], ['l'], (), ['a'], []⟩), .advance true, .advance true,
    .complete true (.create ⟨['1'], ['l'], (), ['a'], []⟩) (.created ⟨['1'], ['l'], (), ['a'], []⟩),
    .invoke true (.delete ['1']), .advance true, .advance true]

/-- A lookup of a token by its label; and a get after the deletion of the token has returned, which
answers that there is none and cannot answer anything else. -/
theorem lookup_sound_and_removal_final_run :
    (∃ first second middle, [.advance false, .advance false] = first ++ second ∧
      run step (Configuration.initial Bool Unit)
        ([.invoke true (.create ⟨['1'], ['l'], (), ['a'], []⟩), .advance true, .advance true] ++
          .invoke false (.findByLabel ['l']) :: first) = some middle ∧
      middle.store.byId.lookup ['1'] = some ⟨['1'], ['l'], (), ['a'], []⟩) ∧
    (∃ final, run step (Configuration.initial Bool Unit)
      (createAndDelete ++ .complete true (.delete ['1']) .deleted :: ([] ++
        .invoke false (.get ['1']) :: ([.advance false] ++
          [.complete false (.get ['1']) (.token none)]))) = some final) ∧
    run step (Configuration.initial Bool Unit)
      (createAndDelete ++ .complete true (.delete ['1']) .deleted :: ([] ++
        .invoke false (.get ['1']) :: ([.advance false] ++
          [.complete false (.get ['1']) (.token (some ⟨['1'], ['l'], (), ['a'], []⟩))]))) =
      none := by
  refine ⟨?_, ⟨_, rfl⟩, ?_⟩
  · exact (lookup_sound_and_removal_final.1 false ['l'] ⟨['1'], ['l'], (), ['a'], []⟩ _
      [.advance false, .advance false] _ (by simp [Event.NotReturn]) rfl).2
  · exact lookup_sound_and_removal_final.2 true false (.get ['1'])
      ⟨['1'], ['l'], (), ['a'], []⟩ createAndDelete [] [.advance false] (by simp [Event.NotReturn])

end Runs

end SolidCommunity.Identity.ConcurrentCredentials
