import SolidCommunity.Foundations.Runs
import SolidCommunity.Foundations.Text
import SolidCommunity.Foundations.UniqueIndex

/-!
# Pods and Their Owners

Pods and owners live in two tables, each keyed by generated ids.  The owners of a pod and the pod of
a base URL are found by scanning a table, so what a scan finds rests on an index of the rows that
the operations have to keep unique.  The order of a scan and the generated ids are arguments here.
-/

namespace SolidCommunity.Identity.PodStore

open Foundations.FiniteMap Foundations.Text Foundations.UniqueIndex

/-- The settings of a new pod. -/
structure PodSettings (Url : Type*) where
  base : Url
  webId : Option Url

structure PodInfo (Url : Type*) where
  id : Str
  baseUrl : Url
  accountId : Str
deriving DecidableEq

/-- One entry in the owner list of a pod. -/
structure PodOwner (Url : Type*) where
  webId : Url
  visible : Bool
deriving DecidableEq

structure PodRow (Url : Type*) where
  id : Str
  baseUrl : Url
  accountId : Str
deriving DecidableEq

structure OwnerRow (Url : Type*) where
  id : Str
  podId : Str
  webId : Url
  visible : Bool
deriving DecidableEq

/-- The pods and the owner entries, each under its own id. -/
structure BasePodStore (Url : Type*) where
  pods : HashMap Str (PodRow Url)
  owners : HashMap Str (OwnerRow Url)

variable {Url : Type*}

def PodRow.info (row : PodRow Url) : PodInfo Url := ⟨row.id, row.baseUrl, row.accountId⟩

def OwnerRow.owner (row : OwnerRow Url) : PodOwner Url := ⟨row.webId, row.visible⟩

/-- The pod and the WebID of an owner entry. -/
def OwnerRow.index (row : OwnerRow Url) : Str × Url := (row.podId, row.webId)

namespace BasePodStore

def new : BasePodStore Url := ⟨∅, ∅⟩

def insertPod (store : BasePodStore Url) (row : PodRow Url) : BasePodStore Url :=
  { store with pods := store.pods.insert row.id row }

def insertOwner (store : BasePodStore Url) (row : OwnerRow Url) : BasePodStore Url :=
  { store with owners := store.owners.insert row.id row }

/-- Create a pod, and record its first owner as invisible when there is a WebID; the overwrite flag
is ignored. -/
def create (store : BasePodStore Url) (accountId : Str) (settings : PodSettings Url)
    (_overwrite : Bool) (podId ownerId : Str) : BasePodStore Url × Except Str Str :=
  let created := store.insertPod ⟨podId, settings.base, accountId⟩
  match settings.webId with
  | some webId => (created.insertOwner ⟨ownerId, podId, webId, false⟩, .ok podId)
  | none => (created, .ok podId)

def get (store : BasePodStore Url) (id : Str) : Option (PodInfo Url) :=
  (store.pods.lookup id).map PodRow.info

def findPods (order : Listing Str (PodRow Url)) (accountId : Str) : List (PodInfo Url) :=
  (order.filter (·.2.accountId = accountId)).map (·.2.info)

/-- The owners of a pod, or nothing when it has none. -/
def getOwners (order : Listing Str (OwnerRow Url)) (id : Str) : Option (List (PodOwner Url)) :=
  let owners := (order.filter (·.2.podId = id)).map (·.2.owner)
  if owners.isEmpty then none else some owners

variable [DecidableEq Url]

def findByBaseUrl (order : Listing Str (PodRow Url)) (baseUrl : Url) : Option (PodInfo Url) :=
  (order.find? (·.2.baseUrl = baseUrl)).map (·.2.info)

/-- Whether the entry makes the WebID an owner of the pod. -/
def isOwnerRow (id : Str) (webId : Url) (row : OwnerRow Url) : Bool :=
  row.podId = id && row.webId = webId

/-- Set the visibility of the first entry that a scan finds, or insert a new entry. -/
def updateOwner (store : BasePodStore Url) (order : Listing Str (OwnerRow Url)) (id : Str)
    (webId : Url) (visible : Bool) (ownerId : Str) : BasePodStore Url :=
  match order.find? (isOwnerRow id webId ·.2) with
  | some entry =>
    { store with owners := store.owners.insert entry.1 { entry.2 with visible := visible } }
  | none => store.insertOwner ⟨ownerId, id, webId, visible⟩

/-- Remove the first entry that a scan finds, by the id in the entry. -/
def removeOwner (store : BasePodStore Url) (order : Listing Str (OwnerRow Url)) (id : Str)
    (webId : Url) : BasePodStore Url :=
  match order.find? (isOwnerRow id webId ·.2) with
  | some entry => { store with owners := store.owners.erase entry.2.id }
  | none => store

end BasePodStore

/-! ## Runs -/

/-- A mutating call, with the ids it generates and the order in which it scans the owners. -/
inductive PodCall (Url : Type*) where
  | create (accountId : Str) (settings : PodSettings Url) (overwrite : Bool) (podId ownerId : Str)
  | updateOwner (id : Str) (webId : Url) (visible : Bool) (order : Listing Str (OwnerRow Url))
    (ownerId : Str)
  | removeOwner (id : Str) (webId : Url) (order : Listing Str (OwnerRow Url))

/-- A generated pod id occurs nowhere in the store. -/
def FreshPod (store : BasePodStore Url) (podId : Str) : Prop :=
  podId ∉ store.pods ∧ ∀ entry ∈ store.owners.entries, entry.2.podId ≠ podId

instance (store : BasePodStore Url) (podId : Str) : Decidable (FreshPod store podId) :=
  inferInstanceAs (Decidable (podId ∉ store.pods ∧
    ∀ entry ∈ store.owners.entries, entry.2.podId ≠ podId))

variable [DecidableEq Url]

/-- One call; generated ids are fresh, and a scan meets every owner entry once. -/
def callStep (store : BasePodStore Url) : PodCall Url → Option (BasePodStore Url)
  | .create accountId settings overwrite podId ownerId =>
    if FreshPod store podId ∧ ownerId ∉ store.owners then
      some (store.create accountId settings overwrite podId ownerId).1
    else none
  | .updateOwner id webId visible order ownerId =>
    if Enumerates order store.owners ∧ ownerId ∉ store.owners then
      some (store.updateOwner order id webId visible ownerId)
    else none
  | .removeOwner id webId order =>
    if Enumerates order store.owners then some (store.removeOwner order id webId) else none

end SolidCommunity.Identity.PodStore
