import Depot.Element.Basic
import Depot.Store.Table
/-!
# The world of handles

Handles to elements and stores are shared: a data set and a store may hold the same element, and a
change through one of them is seen by the other. The world keeps every element and every store
under a reference, besides the disk and the backends. References are never used again.
-/

namespace Depot

/-- The place of an element in the world. -/
abbrev ElementRef := Nat

/-- The place of a store in the world. -/
abbrev StoreRef := Nat

/-- The kinds of stores. -/
inductive StoreKind where
  /-- Held in memory and written to a cache element after every change, if there is one. -/
  | memory (cache : Option ElementRef)
  /-- Held in memory only. It may be read-only, and it may be down, so that nothing in it can be
  reached. -/
  | plain (readOnly down : Bool)
deriving DecidableEq

/-- A key-value store. -/
structure Store where
  kind : StoreKind
  table : Table
deriving DecidableEq

instance : Inhabited Store := ⟨⟨.memory none, .empty⟩⟩

/-- Everything that handles lead to. -/
structure World where
  disk : Disk
  backends : List Backend
  elements : List Element
  stores : List Store

namespace World

/-- An action on the world. -/
abbrev Action (ε α : Type) := Depot.Action World ε α

/-- A world with nothing but a disk. -/
def ofDisk (d : Disk) : World := { disk := d, backends := [], elements := [], stores := [] }

/-! ### Elements -/

/-- The element at a reference. -/
def element (w : World) (r : ElementRef) : Element := w.elements.getD r default

/-- The source of the element at a reference. -/
def source (w : World) (r : ElementRef) : Source := (w.element r).source

/-- The scene around the element at a reference. -/
def scene (w : World) (r : ElementRef) : Scene Element.Around where
  cache := (w.element r).cache
  disk := w.disk
  around := { source := w.source r, backends := w.backends }

/-- Puts back the scene around an element. -/
def putScene (r : ElementRef) (s : Scene Element.Around) (w : World) : World :=
  { w with
    disk := s.disk
    backends := s.around.backends
    elements := w.elements.set r { source := s.around.source, cache := s.cache } }

/-- Runs an action on the element at a reference. -/
def onElement {ε α : Type} (r : ElementRef) (x : Scene.Action Element.Around ε α) :
    Action ε α :=
  x.onPart (·.scene r) (putScene r)

/-- Runs an action on the disk. -/
def onDisk {ε α : Type} (x : Disk.Action ε α) : Action ε α :=
  x.onPart (·.disk) fun d w => { w with disk := d }

/-- A new element. -/
def newElement {ε : Type} (s : Source) : Action ε ElementRef := fun w =>
  (.ok w.elements.length, { w with elements := w.elements ++ [.ofSource s] })

/-- Whether two elements have the same content, by their checksums. -/
def contentEq (r r' : ElementRef) : Action ElementError Bool := do
  let k ← onElement r (Element.checksum .identity)
  let k' ← onElement r' (Element.checksum .identity)
  return k.text = k'.text

/-! ### Stores and backends -/

/-- The store at a reference. -/
def store (w : World) (r : StoreRef) : Store := w.stores.getD r default

/-- Replaces the table of a store. -/
def putTable (r : StoreRef) (t : Table) (w : World) : World :=
  { w with stores := w.stores.modify r ({ · with table := t }) }

/-- A new store. -/
def newStore {ε : Type} (s : Store) : Action ε StoreRef := fun w =>
  (.ok w.stores.length, { w with stores := w.stores ++ [s] })

/-- A new backend without content. -/
def newBackend {ε : Type} : Action ε BackendRef := fun w =>
  (.ok w.backends.length, { w with backends := w.backends ++ [.empty] })

/-! ### Handles that nobody holds -/

/-- The cache elements of some stores. -/
def cachesOf (w : World) (stores : List StoreRef) : List ElementRef :=
  stores.filterMap fun r =>
    match (w.store r).kind with
    | .memory cache => cache
    | .plain ..     => none

/-- Deletes the temporary files of an element. -/
def close (w : World) (r : ElementRef) : World :=
  ((onElement r Scene.close : Action Empty Unit) w).2

/-- Deletes the temporary files of every element but those that are held, directly or by a store
that is. -/
def sweep (elements : List ElementRef) (stores : List StoreRef) (w : World) : World :=
  let held := elements ++ w.cachesOf stores
  ((List.range w.elements.length).filter fun r => !held.contains r).foldl close w

end World

end Depot
