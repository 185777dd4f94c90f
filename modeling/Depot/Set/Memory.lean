import Depot.Catalog.Elements
import Depot.Set.Interface
/-!
# Data sets in memory

The elements are held by key. A cache element, if there is one, gets an object with the descriptor
of every element after each change, before the change is made; if it cannot be written, nothing has
changed.
-/

namespace Depot

open Json

/-- Elements by key, and the cache element. -/
structure MemorySet where
  elements : Dict ElementKey ElementRef
  cache : Option ElementRef
deriving DecidableEq

namespace MemorySet

/-- No elements and no cache element. -/
def empty : MemorySet := { elements := .empty, cache := none }

instance : Inhabited MemorySet := ⟨empty⟩

/-- The name of the implementation. -/
def pluginName : String := "MemoryDataSet"

/-- What a set with a cache element is called in messages. -/
def describe (cacheLocator : String) : String := "MemoryDataSet cached in " ++ cacheLocator

/-- The written form: an object with the descriptor of every element. -/
def encode (w : World) (elements : Dict ElementKey ElementRef) : Bytes :=
  (Value.object
    (elements.entries.map fun (k, r) => (k, (w.source r).descriptor.toValue))).text.toUTF8

/-- A way of writing content to an element, which may fail. -/
abbrev Writing := ElementRef → Bytes → World.Action ElementError Unit

/-- Changes the elements and writes them to the cache element. If either fails, the elements stay
as they are. -/
def mutate (write : Writing)
    (change : Dict ElementKey ElementRef → Except SetError (Dict ElementKey ElementRef)) :
    InWorld.Action MemorySet Unit := do
  let s ← get
  if let some c := s.set.cache then
    let source := s.world.source c
    if !source.writable then throw (.readOnly (describe source.locator))
  match change s.set.elements with
  | .error e => throw e
  | .ok next =>
    if let some c := s.set.cache then
      InWorld.onWorld ((write c (encode s.world next)).mapError .element)
    modify fun s => { s with set.elements := next }

/-- Elements with their keys. -/
def keyed : List ElementRef → InWorld.Action MemorySet (List (ElementKey × ElementRef))
  | []      => return []
  | r :: rs => do
    let k ← InWorld.uuid r
    return (k, r) :: (← keyed rs)

/-- The element under a key that must have one. -/
def find (elements : Dict ElementKey ElementRef) (k : ElementKey) : Except SetError ElementRef :=
  match elements.get? k with
  | some r => .ok r
  | none   => .error (.keyNotFound k)

/-- Adds elements under their keys. -/
def addMany (write : Writing) (rs : List ElementRef) : InWorld.Action MemorySet Unit := do
  let es ← keyed rs
  mutate write fun elements => .ok (elements.insertAll es)

/-- Removes a key. -/
def removeKey (write : Writing) (k : ElementKey) : InWorld.Action MemorySet Unit :=
  mutate write fun elements => (find elements k).map fun _ => elements.erase k

/-- A data set in memory. -/
def core : SetCore MemorySet where
  count := .ofView fun s => .ok s.set.elements.size
  keys := .ofView fun s => .ok s.set.elements.keys
  has k := .ofView fun s => .ok (s.set.elements.contains k)
  addMany := addMany World.setBytes
  get k := .ofView fun s => find s.set.elements k
  remove := removeKey World.setBytes

/-! ### Loading -/

/-- Builds the elements of an object of descriptors. -/
def loadEntries (p : Plugins) (name : String) (elements : Dict ElementKey ElementRef) :
    Object → World.Action SetError (Dict ElementKey ElementRef)
  | []               => return elements
  | (k, .object o) :: es =>
    match Descriptor.ofObject Plugins.elementContract o with
    | .error e => throw (.storage name (.malformedEntry k e))
    | .ok d    => do
      let r ← (p.element d).mapError .plugin
      loadEntries p name (elements.insert k r) es
  | (k, other) :: _  => throw (.storage name (.entryNotObject k other))

/-- The elements that a cache element holds; none if it has no content. -/
def load (p : Plugins) (c : ElementRef) : World.Action SetError (Dict ElementKey ElementRef) := do
  let content ← (World.read c).mapError .element
  if content.size = 0 then
    return .empty
  else
    let name := describe ((← get).source c).locator
    match Object.ofBytes? content with
    | some o => loadEntries p name .empty o
    | none   => throw (.storage name .notTable)

/-- A set that is written to a cache element, with the elements that it holds. -/
def openCached (p : Plugins) (c : ElementRef) : World.Action SetError MemorySet := do
  return { elements := ← load p c, cache := some c }

/-- The parameters that the set can be rebuilt from. -/
def config (w : World) (s : MemorySet) : Object :=
  [("cache_element",
    match s.cache with
    | some c => (w.source c).descriptor.toValue
    | none   => Descriptor.empty.toValue)]

end MemorySet

end Depot
