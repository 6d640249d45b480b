import SolidCommunity.Foundations.FiniteMap
import SolidCommunity.Foundations.Text
import SolidCommunity.Foundations.Transcripts

/-!
# Resource Stores and their Decorators

A resource store is an interface of six methods, and two decorators wrap any store: one forwards
every call, the other forwards the reads and refuses the writes.  Decorators can be stacked in any
order.  A stack with a read-only decorator anywhere in it behaves, over a whole run, like the source
that is sent the reads alone.
-/

namespace SolidCommunity.SolidStorage.Resources

open Foundations.FiniteMap Foundations.Runs Foundations.Text

/-! ## Data -/

/-- The errors of the storage layer; errors of other libraries are kept as texts. -/
inductive StorageError where
  | notFound (message : Str)
  | forbidden (message : Str)
  | notImplemented (message : Str)
  | alreadyExpired
  | io (message : Str)
  | json (message : Str)
  | internal (message : Str)
deriving DecidableEq

structure RepresentationBody where
  contentType : Str
  data : Bytes

/-- The activity that changed a resource. -/
structure ChangeMetadata where
  activity : Str

/-- The changes of a request under the URLs of the changed resources. -/
abbrev ChangeMap := HashMap Str ChangeMetadata

structure Representation (Url : Type*) where
  identifier : Url
  body : RepresentationBody
  metadata : HashMap Str Str

/-- The six methods, each of which may change the state behind the store. -/
structure ResourceStore (State Url Preferences : Type*) where
  hasResource : State → Url → State × Except StorageError Bool
  getRepresentation : State → Url → Preferences → State × Except StorageError (Representation Url)
  addResource : State → Url → Representation Url → State × Except StorageError ChangeMap
  setRepresentation : State → Url → Representation Url → State × Except StorageError ChangeMap
  deleteResource : State → Url → State × Except StorageError ChangeMap
  modifyResource : State → Url → Bytes → State × Except StorageError ChangeMap

variable {State Url Preferences : Type*}

/-! ## Stores -/

/-- The error of a method that is not implemented. -/
def notImplementedError (method : Str) : StorageError :=
  .notImplemented ("BaseResourceStore::".toList ++ method)

/-- The store that implements nothing. -/
def baseResourceStore : ResourceStore Unit Url Preferences where
  hasResource _ _ := ((), .error (notImplementedError "has_resource".toList))
  getRepresentation _ _ _ := ((), .error (notImplementedError "get_representation".toList))
  addResource _ _ _ := ((), .error (notImplementedError "add_resource".toList))
  setRepresentation _ _ _ := ((), .error (notImplementedError "set_representation".toList))
  deleteResource _ _ := ((), .error (notImplementedError "delete_resource".toList))
  modifyResource _ _ _ := ((), .error (notImplementedError "modify_resource".toList))

/-- Forward every call to the source. -/
def passthroughStore (source : ResourceStore State Url Preferences) :
    ResourceStore State Url Preferences where
  hasResource state url := source.hasResource state url
  getRepresentation state url preferences := source.getRepresentation state url preferences
  addResource state containerUrl representation :=
    source.addResource state containerUrl representation
  setRepresentation state url representation := source.setRepresentation state url representation
  deleteResource state url := source.deleteResource state url
  modifyResource state url patch := source.modifyResource state url patch

/-- The error of a write to a read-only store. -/
def readOnlyError : StorageError := .forbidden "Store is read-only".toList

/-- Forward the reads to the source and refuse the writes. -/
def readOnlyStore (source : ResourceStore State Url Preferences) :
    ResourceStore State Url Preferences where
  hasResource state url := source.hasResource state url
  getRepresentation state url preferences := source.getRepresentation state url preferences
  addResource state _ _ := (state, .error readOnlyError)
  setRepresentation state _ _ := (state, .error readOnlyError)
  deleteResource state _ := (state, .error readOnlyError)
  modifyResource state _ _ := (state, .error readOnlyError)

/-- The two decorators. -/
inductive Decorator where
  | passthrough
  | readOnly
deriving DecidableEq

def Decorator.wrap :
    Decorator → ResourceStore State Url Preferences → ResourceStore State Url Preferences
  | passthrough => passthroughStore
  | readOnly => readOnlyStore

/-- The source behind the decorators, the first of which is outermost. -/
def stack (decorators : List Decorator) (source : ResourceStore State Url Preferences) :
    ResourceStore State Url Preferences :=
  decorators.foldr Decorator.wrap source

/-! ## Requests -/

/-- A call of one of the methods. -/
inductive Request (Url Preferences : Type*) where
  | hasResource (url : Url)
  | getRepresentation (url : Url) (preferences : Preferences)
  | addResource (containerUrl : Url) (representation : Representation Url)
  | setRepresentation (url : Url) (representation : Representation Url)
  | deleteResource (url : Url)
  | modifyResource (url : Url) (patch : Bytes)

inductive Response (Url : Type*) where
  | found (result : Except StorageError Bool)
  | representation (result : Except StorageError (Representation Url))
  | changes (result : Except StorageError ChangeMap)

/-- Whether the method is one that may change resources. -/
def Request.isWrite : Request Url Preferences → Bool
  | hasResource _ | getRepresentation _ _ => false
  | addResource _ _ | setRepresentation _ _ | deleteResource _ | modifyResource _ _ => true

/-- Call the method that the request names. -/
def ResourceStore.respond (store : ResourceStore State Url Preferences) (state : State) :
    Request Url Preferences → State × Response Url
  | .hasResource url => (store.hasResource state url).map id .found
  | .getRepresentation url preferences =>
    (store.getRepresentation state url preferences).map id .representation
  | .addResource containerUrl representation =>
    (store.addResource state containerUrl representation).map id .changes
  | .setRepresentation url representation =>
    (store.setRepresentation state url representation).map id .changes
  | .deleteResource url => (store.deleteResource state url).map id .changes
  | .modifyResource url patch => (store.modifyResource state url patch).map id .changes

section Respond

variable {source : ResourceStore State Url Preferences} {request : Request Url Preferences}

theorem respond_readOnlyStore_of_isWrite (h : request.isWrite = true) (state : State) :
    (readOnlyStore source).respond state request = (state, .changes (.error readOnlyError)) := by
  cases request with
  | hasResource | getRepresentation => simp [Request.isWrite] at h
  | addResource | setRepresentation | deleteResource | modifyResource => rfl

theorem respond_readOnlyStore_of_isRead (h : request.isWrite = false) (state : State) :
    (readOnlyStore source).respond state request = source.respond state request := by
  cases request with
  | hasResource | getRepresentation => rfl
  | addResource | setRepresentation | deleteResource | modifyResource =>
    simp [Request.isWrite] at h

/-- Decorators behind a read-only one add nothing, and those that forward never do. -/
theorem stack_eq_ite (decorators : List Decorator) (source : ResourceStore State Url Preferences) :
    stack decorators source =
      if .readOnly ∈ decorators then readOnlyStore source else source := by
  induction decorators with
  | nil => rfl
  | cons decorator decorators ih =>
    have hwrap : stack (decorator :: decorators) source =
        decorator.wrap (stack decorators source) := rfl
    rw [hwrap, ih]
    cases decorator with
    | passthrough =>
      simp only [List.mem_cons, reduceCtorEq, false_or]
      rfl
    | readOnly =>
      rw [if_pos List.mem_cons_self]
      split <;> rfl

end Respond

/-! ## Runs -/

section Runs

variable {decorators : List Decorator} {source : ResourceStore State Url Preferences}
  {state : State} {requests : List (Request Url Preferences)}

/-- Whether the decorators let the request pass. -/
def admits (decorators : List Decorator) (request : Request Url Preferences) : Bool :=
  !(request.isWrite && .readOnly ∈ decorators)

/-- A request that passes is answered by the source. -/
theorem respond_stack_of_admits {request : Request Url Preferences}
    (h : admits decorators request = true) (state : State) :
    (stack decorators source).respond state request = source.respond state request := by
  rw [stack_eq_ite]
  split
  · next hreadOnly =>
    have hread : request.isWrite = false := by simpa [admits, hreadOnly] using h
    exact respond_readOnlyStore_of_isRead hread state
  · rfl

/-- A request that does not pass is refused and changes nothing. -/
theorem respond_stack_of_not_admits {request : Request Url Preferences}
    (h : admits decorators request = false) (state : State) :
    (stack decorators source).respond state request = (state, .changes (.error readOnlyError)) := by
  obtain ⟨hwrite, hreadOnly⟩ : request.isWrite = true ∧ .readOnly ∈ decorators := by
    simpa [admits] using h
  rw [stack_eq_ite, if_pos hreadOnly]
  exact respond_readOnlyStore_of_isWrite hwrite state

/-- Over every run, a stack of decorators leaves the source as the requests alone leave it that
pass, gives them the answers of the source, and refuses the others. -/
theorem stack_serves_admitted (decorators : List Decorator)
    (source : ResourceStore State Url Preferences) (state : State)
    (requests : List (Request Url Preferences)) :
    after (stack decorators source).respond state requests =
        after source.respond state (requests.filter (admits decorators)) ∧
      (transcript (stack decorators source).respond state requests).filter
          (admits decorators ·.1) =
        transcript source.respond state (requests.filter (admits decorators)) ∧
      ∀ pair ∈ transcript (stack decorators source).respond state requests,
        admits decorators pair.1 = false → pair.2 = .changes (.error readOnlyError) := by
  have hinert (state : State) (request : Request Url Preferences)
      (hrefused : admits decorators request = false) :
      ((stack decorators source).respond state request).1 = state := by
    rw [respond_stack_of_not_admits hrefused]
  have hpassed : ∀ request ∈ requests.filter (admits decorators), ∀ state,
      (stack decorators source).respond state request = source.respond state request :=
    fun request hrequest ↦ respond_stack_of_admits (List.mem_filter.mp hrequest).2
  refine ⟨?_, ?_, ?_⟩
  · rw [← after_filter _ hinert]
    exact after_congr hpassed state
  · rw [← transcript_filter _ hinert]
    exact transcript_congr hpassed state
  · apply forall_mem_transcript _ fun (request : Request Url Preferences) (answer : Response Url) ↦
      admits decorators request = false → answer = .changes (.error readOnlyError)
    intro state request hrefused
    rw [respond_stack_of_not_admits hrefused]

end Runs

/-! ## The store that implements nothing -/

/-- The error in a response. -/
def Response.error? : Response Url → Option StorageError
  | found (.error error) => some error
  | representation (.error error) => some error
  | changes (.error error) => some error
  | _ => none

/-- The name of the method that a request calls. -/
def Request.method : Request Url Preferences → Str
  | hasResource _ => "has_resource".toList
  | getRepresentation _ _ => "get_representation".toList
  | addResource _ _ => "add_resource".toList
  | setRepresentation _ _ => "set_representation".toList
  | deleteResource _ => "delete_resource".toList
  | modifyResource _ _ => "modify_resource".toList

/-- The error of the store that implements nothing names the method. -/
theorem error_baseResourceStore (request : Request Url Preferences) :
    (baseResourceStore.respond () request).2.error? =
      some (notImplementedError request.method) := by
  cases request <;> rfl

/-- Behind any decorators it answers every request of a run with an error. -/
theorem error_stack_baseResourceStore (decorators : List Decorator)
    (requests : List (Request Url Preferences)) :
    ∀ pair ∈ transcript (stack decorators baseResourceStore).respond () requests,
      pair.2.error? = some
        (if admits decorators pair.1 then notImplementedError pair.1.method
        else readOnlyError) := by
  apply forall_mem_transcript _ fun (request : Request Url Preferences) (answer : Response Url) ↦
    answer.error? = some
      (if admits decorators request then notImplementedError request.method else readOnlyError)
  intro state request
  cases hadmits : admits decorators request with
  | true =>
    rw [respond_stack_of_admits hadmits, error_baseResourceStore]
    rfl
  | false =>
    rw [respond_stack_of_not_admits hadmits]
    rfl

end SolidCommunity.SolidStorage.Resources
