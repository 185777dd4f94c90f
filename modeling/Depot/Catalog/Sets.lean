import Depot.Catalog.Stores
import Depot.Set.Basic
/-!
# The implementations of data sets
-/

namespace Depot

open Json

namespace Plugins

/-- The contract of data sets. -/
def setContract : String := "data_set"

/-- Parameters of a set in memory: no cache element. -/
def memorySetDefaults : Object := [("cache_element", Descriptor.empty.toValue)]

/-- Parameters of a set over a store: a store in memory. -/
def storeSetDefaults : Object :=
  [("kvstore", (Descriptor.selecting World.memoryStoreName memoryStoreDefaults).toValue)]

/-- Parameters of a set in a directory tree. -/
def treeSetDefaults : Object :=
  [("root_directory", .null),
   ("sha1_chunk", .number (.ofUInt64 (.ofNat TreeSet.defaultChunk)))]

/-- Builds a set in memory, with the elements of its cache element if it has one. -/
def memorySetOf (p : Plugins) : Constructor DataSet := fun o => do
  match ← (p.element? (Assoc.get? "cache_element" o)).mapError PluginError.message with
  | some c => .memory <$> (MemorySet.openCached p c).mapError SetError.message
  | none   => return .memory .empty

/-- Builds a set over the store that a descriptor selects. -/
def storeSetOf (p : Plugins) : Constructor DataSet := fun o => do
  match ← (p.store? (Assoc.get? "kvstore" o)).mapError PluginError.message with
  | some r => return .overStore { store := r, plugins := p }
  | none   => throw "\"kvstore\" must select a key-value store"

/-- The root of a tree, a text that is not empty. -/
def rootOf (o : Object) : Except String String :=
  match Assoc.get? "root_directory" o with
  | some (.string s) => if s = "" then .error (ParameterError.required "root_directory").message
                        else .ok s
  | _                => .error (ParameterError.required "root_directory").message

/-- Into how many pieces digests are cut. -/
def chunkOf (o : Object) : Except String Nat :=
  match Assoc.get? "sha1_chunk" o with
  | none | some .null => .ok TreeSet.defaultChunk
  | some v            =>
    match v.nat? with
    | some n => .ok n
    | none   => .error ("\"sha1_chunk\" must be a positive integer, got " ++ v.text)

/-- Builds a set in a directory tree, with the elements that are there. -/
def treeSetOf (p : Plugins) : Constructor DataSet := fun o => do
  let root ← .ofView fun _ => rootOf o
  let chunk ← .ofView fun _ => chunkOf o
  .tree <$> (TreeSet.openAt p root chunk).mapError SetError.message

/-- The implementations of data sets. -/
def sets (p : Plugins) : Registry (Constructor DataSet) where
  contract := setContract
  registrations :=
    [{ name := MemorySet.pluginName
       defaults := memorySetDefaults
       construct := p.memorySetOf },
     { name := StoreSet.pluginName
       defaults := storeSetDefaults
       construct := p.storeSetOf },
     { name := TreeSet.pluginName
       defaults := treeSetDefaults
       construct := p.treeSetOf }]

/-- Builds the set that a descriptor selects. -/
def set (p : Plugins) (d : Descriptor) : World.Action PluginError DataSet := p.sets.resolve d

/-- All built-in implementations, with a new backend under the default name. -/
def builtin {ε : Type} : World.Action ε Plugins := do
  let r ← World.newBackend
  return { backends := Dict.empty.insert Source.defaultBackend r }

end Plugins

end Depot
