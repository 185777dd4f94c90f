import Depot.Set.Memory
import Depot.Set.OverStore
import Depot.Set.Tree
/-!
# Data sets

A data set is one of three kinds: in memory, over a key-value store, or in a directory tree. What
it offers is what its kind offers.
-/

namespace Depot

open Json

/-- A data set. -/
inductive DataSet where
  | memory (s : MemorySet)
  | overStore (s : StoreSet)
  | tree (s : TreeSet)
deriving DecidableEq

namespace DataSet

instance : Inhabited DataSet := ⟨.memory .empty⟩

/-- The name of the implementation. -/
def pluginName : DataSet → String
  | memory _    => MemorySet.pluginName
  | overStore _ => StoreSet.pluginName
  | tree _      => TreeSet.pluginName

/-- Runs an action on a set of one kind. -/
def onKind {σ α : Type} (wrap : σ → DataSet) (s : σ) (w : World) (x : InWorld.Action σ α) :
    Except SetError α × InWorld DataSet :=
  let (result, s') := x { set := s, world := w }
  (result, { set := wrap s'.set, world := s'.world })

/-- An operation, by what it is on each kind of set. -/
def byKind {α : Type} (op : {σ : Type} → SetCore σ → InWorld.Action σ α) :
    InWorld.Action DataSet α := fun s =>
  match s.set with
  | .memory m    => onKind .memory m s.world (op MemorySet.core)
  | .overStore o => onKind .overStore o s.world (op StoreSet.core)
  | .tree t      => onKind .tree t s.world (op TreeSet.core)

/-- What data sets of any kind offer. -/
def core : SetCore DataSet where
  count := byKind (·.count)
  keys := byKind (·.keys)
  has k := byKind (·.has k)
  addMany rs := byKind (·.addMany rs)
  get k := byKind (·.get k)
  remove k := byKind (·.remove k)

/-- Reads the tree of a set in a directory tree again. -/
def refresh : InWorld.Action DataSet Unit := fun s =>
  match s.set with
  | .tree t => onKind .tree t s.world TreeSet.refresh
  | _       => (.ok (), s)

/-- The parameters that a set can be rebuilt from. -/
def config (w : World) : DataSet → Object
  | memory s    => s.config w
  | overStore s => s.config w
  | tree s      => s.config

/-- The descriptor that rebuilds a set. -/
def descriptor (w : World) (s : DataSet) : Descriptor := .selecting s.pluginName (s.config w)

/-- The elements that a set holds, its cache element included. -/
def heldElements : DataSet → List ElementRef
  | memory s    => s.elements.values ++ s.cache.toList
  | overStore _ => []
  | tree s      => s.entries.values.map (·.element)

/-- The stores that a set holds. -/
def heldStores : DataSet → List StoreRef
  | overStore s => [s.store]
  | _           => []

end DataSet

end Depot
