import Depot.Store.Interface
import Depot.World.Basic
/-!
# The stores of the world

Two kinds of stores. One may be backed by a cache element: every change is made on a copy of the
table, the copy is written to the element, and only then it takes the place of the table, so that a
change that fails has changed nothing. The other is the plainest one there is: it may refuse
changes or be out of reach, and works on several keys one by one.
-/

namespace Depot

open Json

namespace World

/-- The content of an element. -/
def read (r : ElementRef) : Action ElementError Bytes := onElement r Element.read

/-- Replaces the content of an element, if that is allowed. -/
def setBytes (r : ElementRef) (content : Bytes) : Action ElementError Unit :=
  onElement r (Element.setBytes content)

/-- The key of an element. -/
def uuid (r : ElementRef) : Action ElementError ElementKey := onElement r Element.uuid

/-! ### Stores in memory -/

/-- The implementation that holds a table in memory. -/
def memoryStoreName : String := "MemoryKeyValueStore"

/-- The cache element of a store. -/
def cacheOf (w : World) (r : StoreRef) : Option ElementRef :=
  match (w.store r).kind with
  | .memory cache => cache
  | .plain ..     => none

/-- A store may not be changed if its cache element may not. -/
def cacheIsReadOnly (w : World) (r : StoreRef) : Bool :=
  match w.cacheOf r with
  | some e => !(w.source e).writable
  | none   => false

/-- Changes the table of a store and writes it to the cache element. If either fails, the table
stays as it is. -/
def mutate (r : StoreRef) (change : Table → Except StoreError Table) :
    Action StoreError Unit := do
  let w ← get
  if w.cacheIsReadOnly r then throw (.readOnly memoryStoreName)
  match change (w.store r).table with
  | .error e => throw e
  | .ok next =>
    if let some e := w.cacheOf r then
      (setBytes e next.encode).mapError .element
    modify (putTable r next)

/-- A table without one key, which must be there. -/
def tableWithout (k : Key) (t : Table) : Except StoreError Table :=
  if t.contains k then .ok (t.erase k) else .error (.keyNotFound k)

/-- A table without several keys, all of which must be there; a key may be named twice. -/
def tableWithoutAll (ks : List Key) (t : Table) : Except StoreError Table :=
  match ks.find? fun k => !t.contains k with
  | some k => .error (.keyNotFound k)
  | none   => .ok (ks.foldl (·.erase ·) t)

/-- A store in memory. -/
def memoryStore (r : StoreRef) : KeyValueStore World where
  name := memoryStoreName
  isReadOnly w := w.cacheIsReadOnly r
  count := .ofView fun w => .ok (w.store r).table.size
  keys := .ofView fun w => .ok (w.store r).table.keys
  lookup k := .ofView fun w => .ok ((w.store r).table.get? k)
  set k v := mutate r fun t => .ok (t.insert k v)
  remove k := mutate r (tableWithout k)
  clear := mutate r fun _ => .ok .empty
  setMany es := mutate r fun t => .ok (t.insertAll es)
  removeMany ks := mutate r (tableWithoutAll ks)

/-- The table that an element holds; none if the element has no content. -/
def loadTable (e : ElementRef) : Action StoreError Table := do
  let content ← (read e).mapError .element
  if content.size = 0 then
    return .empty
  else
    match Table.decode? content with
    | some t => return t
    | none   => throw (.table ((← get).source e).locator .notTable)

/-- A store in memory that is written to an element, with the table that the element holds. -/
def openStore (e : ElementRef) : Action StoreError StoreRef := do
  let t ← loadTable e
  newStore { kind := .memory (some e), table := t }

/-! ### Plain stores -/

/-- The name of plain stores. -/
def plainStoreName : String := "PlainStore"

/-- Whether a plain store is read-only. -/
def plainIsReadOnly (w : World) (r : StoreRef) : Bool :=
  match (w.store r).kind with
  | .plain readOnly _ => readOnly
  | .memory _         => false

/-- The table of a plain store, unless the store is down. -/
def reach (w : World) (r : StoreRef) : Except StoreError Table :=
  match (w.store r).kind with
  | .plain _ true => .error (.table plainStoreName .timeout)
  | _             => .ok (w.store r).table

/-- Changes the table of a plain store. -/
def changePlain (r : StoreRef) (change : Table → Except StoreError Table) :
    Action StoreError Unit := .ofStep fun w =>
  if w.plainIsReadOnly r then
    .error (.readOnly plainStoreName)
  else
    match w.reach r with
    | .error e => .error e
    | .ok t    => (change t).map fun t => w.putTable r t

/-- A plain store. -/
def plainStore (r : StoreRef) : KeyValueStore World :=
  StoreCore.toStore {
    name := plainStoreName
    isReadOnly := fun w => w.plainIsReadOnly r
    count := .ofView fun w => (w.reach r).map (·.size)
    keys := .ofView fun w => (w.reach r).map (·.keys)
    lookup := fun k => .ofView fun w => (w.reach r).map (·.get? k)
    set := fun k v => changePlain r fun t => .ok (t.insert k v)
    remove := fun k => changePlain r (tableWithout k)
    clear := changePlain r fun _ => .ok .empty }

/-! ### Any store -/

/-- What the store at a reference offers. -/
def storeAt (w : World) (r : StoreRef) : KeyValueStore World :=
  match (w.store r).kind with
  | .memory _ => memoryStore r
  | .plain .. => plainStore r

/-- Uses the store at a reference. -/
def withStore {ε α : Type} (r : StoreRef) (x : KeyValueStore World → Action ε α) : Action ε α :=
  fun w => x (w.storeAt r) w

/-! ### Descriptors -/

/-- The parameters that a store can be rebuilt from. -/
def storeConfig (w : World) (r : StoreRef) : Object :=
  match (w.store r).kind with
  | .memory none     => [("cache_element", Descriptor.empty.toValue)]
  | .memory (some e) => [("cache_element", (w.source e).descriptor.toValue)]
  | .plain ..        => []

/-- The descriptor that rebuilds a store. -/
def storeDescriptor (w : World) (r : StoreRef) : Descriptor :=
  .selecting (w.storeAt r).name (w.storeConfig r)

end World

end Depot
