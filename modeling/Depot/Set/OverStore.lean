import Depot.Catalog.Elements
import Depot.Set.Interface
/-!
# Data sets over key-value stores

The descriptor of every element is kept in a store, under the key of the element as a text; the
element is built anew each time it is asked for. Entries of the store under other kinds of keys do
not belong to the set.
-/

namespace Depot

open Json

/-- A store that holds descriptors, and what builds elements from them. -/
structure StoreSet where
  store : StoreRef
  plugins : Plugins
deriving DecidableEq

namespace StoreSet

/-- The name of the implementation. -/
def pluginName : String := "KvsDataSet"

/-- A fault of the store as one of the set. -/
def fault : StoreError → SetError
  | .readOnly store => .readOnly (pluginName ++ " over " ++ store)
  | e               => .store e

/-- A fault of the store where one element was asked for. -/
def faultAt (k : ElementKey) : StoreError → SetError
  | .keyNotFound _ => .keyNotFound k
  | e              => fault e

/-- The text of a key, if it is one. -/
def elementKey? : Key → Option ElementKey
  | .text s => some s
  | _       => none

/-! ### Over any store -/

/-- The keys of a store that are texts, in order. -/
def keysOf {σ : Type} (kv : KeyValueStore σ) : Action σ SetError (List ElementKey) := do
  let ks ← kv.keys.mapError fault
  return (ks.filterMap elementKey?).mergeSort fun a b => (compare a b).isLE

/-- Whether a store has a value for an element. -/
def hasIn {σ : Type} (kv : KeyValueStore σ) (k : ElementKey) : Action σ SetError Bool :=
  (kv.has (.text k)).mapError fault

/-- Removes the value for an element from a store. -/
def removeFrom {σ : Type} (kv : KeyValueStore σ) (k : ElementKey) : Action σ SetError Unit :=
  (kv.remove (.text k)).mapError (faultAt k)

/-- The descriptor that a value is. -/
def descriptorOf (k : ElementKey) : Value → Except SetError Descriptor
  | .object o =>
    (Descriptor.ofObject Plugins.elementContract o).mapError fun e =>
      .storage pluginName (.malformedEntry k e)
  | other     => .error (.storage pluginName (.valueNotObject k other))

/-- The descriptor that a store has for an element. -/
def descriptorIn {σ : Type} (kv : KeyValueStore σ) (k : ElementKey) :
    Action σ SetError Descriptor := do
  match ← (kv.lookup (.text k)).mapError fault with
  | none   => throw (.keyNotFound k)
  | some v => .ofView fun _ => descriptorOf k v

/-- Elements with their keys and descriptors. -/
def described : List ElementRef → World.Action SetError (List (Key × Value))
  | []      => return []
  | r :: rs => do
    let k ← (World.uuid r).mapError .element
    let v := ((← get).source r).descriptor.toValue
    return (.text k, v) :: (← described rs)

/-- Puts elements into a store of the world. -/
def addTo (kv : KeyValueStore World) (rs : List ElementRef) : World.Action SetError Unit := do
  let es ← described rs
  (kv.setMany es).mapError fault

/-- Builds an element from its descriptor in a store of the world. -/
def getFrom (kv : KeyValueStore World) (p : Plugins) (k : ElementKey) :
    World.Action SetError ElementRef := do
  let d ← descriptorIn kv k
  (p.element d).mapError .plugin

/-! ### Over a store of the world -/

/-- Uses the store of the set. -/
def withStore {α : Type} (x : StoreSet → KeyValueStore World → World.Action SetError α) :
    InWorld.Action StoreSet α := do
  let s := (← get).set
  InWorld.onWorld (World.withStore s.store (x s))

/-- A data set over a store. -/
def core : SetCore StoreSet where
  count := withStore fun _ kv => List.length <$> keysOf kv
  keys := withStore fun _ kv => keysOf kv
  has k := withStore fun _ kv => hasIn kv k
  addMany rs := withStore fun _ kv => addTo kv rs
  get k := withStore fun s kv => getFrom kv s.plugins k
  remove k := withStore fun _ kv => removeFrom kv k

/-- The parameters that the set can be rebuilt from. -/
def config (w : World) (s : StoreSet) : Object :=
  [("kvstore", (w.storeDescriptor s.store).toValue)]

end StoreSet

end Depot
