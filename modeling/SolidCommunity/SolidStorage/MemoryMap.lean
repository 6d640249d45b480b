import SolidCommunity.Foundations.FiniteMap
import SolidCommunity.Foundations.Text

/-!
# The Memory Backend

The calls of the key-value interface and their meaning on a map held in memory.  Every call is one
critical section there, so a sequence of calls is executed one at a time; this is what the other
backends are compared with.
-/

namespace SolidCommunity.SolidStorage

open Foundations.FiniteMap Foundations.Text

/-- The kinds of `StorageError` that the backends return. -/
inductive StorageError where
  | io
  | json
deriving DecidableEq, Repr

/-- The calls of `KeyValueStorage`. -/
inductive Call (V : Type*) where
  | get (key : Str)
  | has (key : Str)
  | set (key : Str) (value : V)
  | delete (key : Str)
  | entries

/-- What a call returns; the order of the entries is unspecified. -/
inductive Outcome (V : Type*) where
  | value (result : Option V)
  | found (flag : Bool)
  | stored
  | removed (flag : Bool)
  | listed (entries : Multiset (Str × V))
  | failed (error : StorageError)

variable {V : Type*}

/-- Whether the call may change the map. -/
def Call.isWrite : Call V → Bool
  | set _ _ | delete _ => true
  | _ => false

namespace MemoryMapStorage

/-- One call on the map in memory. -/
def run (map : HashMap Str V) : Call V → HashMap Str V × Outcome V
  | .get key => (map, .value (map.lookup key))
  | .has key => (map, .found (key ∈ map))
  | .set key value => (map.insert key value, .stored)
  | .delete key => (map.erase key, .removed (key ∈ map))
  | .entries => (map, .listed (pairs map))

/-- The map after calls that are applied one at a time. -/
def replay (map : HashMap Str V) (calls : List (Call V)) : HashMap Str V :=
  calls.foldl (fun map call ↦ (run map call).1) map

theorem run_of_not_isWrite {call : Call V} (h : call.isWrite = false) (map : HashMap Str V) :
    (run map call).1 = map := by
  cases call with
  | set key value | delete key => simp [Call.isWrite] at h
  | get key | has key | entries => rfl

theorem replay_append (map : HashMap Str V) (first second : List (Call V)) :
    replay map (first ++ second) = replay (replay map first) second :=
  List.foldl_append

@[simp]
theorem replay_concat (map : HashMap Str V) (calls : List (Call V)) (call : Call V) :
    replay map (calls ++ [call]) = (run (replay map calls) call).1 := by
  simp [replay]

/-- Reads can be left out of a replay. -/
theorem replay_of_reads {calls : List (Call V)} (h : ∀ call ∈ calls, call.isWrite = false)
    (map : HashMap Str V) : replay map calls = map := by
  induction calls with
  | nil => rfl
  | cons call calls ih =>
    change replay (run map call).1 calls = map
    rw [run_of_not_isWrite (h call List.mem_cons_self)]
    exact ih fun other hother ↦ h other (List.mem_cons_of_mem call hother)

end MemoryMapStorage

end SolidCommunity.SolidStorage
