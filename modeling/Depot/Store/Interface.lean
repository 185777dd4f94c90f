import Depot.Action
import Depot.Json.Value
import Depot.Store.Error
/-!
# What a key-value store offers

A store is given by a few operations on some state. Others are built from them: operations on
several keys at once, and look-ups that fail or fall back where a key is missing. A store may have
operations of its own on several keys.
-/

namespace Depot

open Json

/-- The operations every store has of its own, on a state `σ`. -/
structure StoreCore (σ : Type) where
  name : String
  isReadOnly : σ → Bool
  count : Action σ StoreError Nat
  keys : Action σ StoreError (List Key)
  lookup : Key → Action σ StoreError (Option Value)
  set : Key → Value → Action σ StoreError Unit
  remove : Key → Action σ StoreError Unit
  clear : Action σ StoreError Unit

namespace StoreCore

variable {σ : Type} (s : StoreCore σ)

/-- Fails if the store is read-only. -/
def ensureWritable : Action σ StoreError Unit :=
  .ofView fun st => if s.isReadOnly st then .error (.readOnly s.name) else .ok ()

/-- Whether a key has a value. -/
def has (k : Key) : Action σ StoreError Bool := do
  return (← s.lookup k).isSome

/-- The value under a key that must have one. -/
def get (k : Key) : Action σ StoreError Value := do
  match ← s.lookup k with
  | some v => return v
  | none   => throw (.keyNotFound k)

/-- The value under a key, or another value if it has none. -/
def getOr (k : Key) (default : Value) : Action σ StoreError Value := do
  return (← s.lookup k).getD default

/-- The values under several keys that must all have one. -/
def getMany : List Key → Action σ StoreError (List Value)
  | []      => return []
  | k :: ks => do
    let v ← s.get k
    return v :: (← getMany ks)

/-- Every value, in the order of the keys. -/
def values : Action σ StoreError (List Value) := do
  s.getMany (← s.keys)

/-- Sets values one after the other. -/
def setEach : List (Key × Value) → Action σ StoreError Unit
  | []           => return
  | (k, v) :: es => do
    s.set k v
    setEach es

/-- Sets several values, one after the other. -/
def setMany (es : List (Key × Value)) : Action σ StoreError Unit := do
  s.ensureWritable
  s.setEach es

/-- Fails at the first key without a value. -/
def requireEach : List Key → Action σ StoreError Unit
  | []      => return
  | k :: ks => do
    if ← s.has k then requireEach ks else throw (.keyNotFound k)

/-- Removes keys one after the other. -/
def removeEach : List Key → Action σ StoreError Unit
  | []      => return
  | k :: ks => do
    s.remove k
    removeEach ks

/-- Removes several keys, one after the other, after a look at whether all of them are there. -/
def removeMany (ks : List Key) : Action σ StoreError Unit := do
  s.ensureWritable
  s.requireEach ks
  s.removeEach ks

end StoreCore

/-- A store: its own operations, and how it works on several keys. -/
structure KeyValueStore (σ : Type) extends StoreCore σ where
  setMany : List (Key × Value) → Action σ StoreError Unit
  removeMany : List Key → Action σ StoreError Unit

/-- A store that works on several keys one by one. -/
def StoreCore.toStore {σ : Type} (s : StoreCore σ) : KeyValueStore σ :=
  { s with setMany := s.setMany, removeMany := s.removeMany }

end Depot
