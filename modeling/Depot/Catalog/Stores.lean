import Depot.Catalog.Elements
import Depot.World.Stores
/-!
# The implementations of key-value stores
-/

namespace Depot

open Json

namespace Plugins

/-- The contract of key-value stores. -/
def storeContract : String := "key_value_store"

/-- Parameters of a store in memory: no cache element. -/
def memoryStoreDefaults : Object := [("cache_element", Descriptor.empty.toValue)]

/-- Builds a store in memory, with the table of its cache element if it has one. -/
def memoryStoreOf (p : Plugins) : Constructor StoreRef := fun o => do
  match ← (p.element? (Assoc.get? "cache_element" o)).mapError PluginError.message with
  | some e => (World.openStore e).mapError StoreError.message
  | none   => World.newStore default

/-- The implementations of key-value stores. -/
def stores (p : Plugins) : Registry (Constructor StoreRef) where
  contract := storeContract
  registrations :=
    [{ name := World.memoryStoreName
       defaults := memoryStoreDefaults
       construct := p.memoryStoreOf }]

/-- Builds the store that a descriptor selects. -/
def store (p : Plugins) (d : Descriptor) : World.Action PluginError StoreRef := p.stores.resolve d

/-- Builds the store that an optional descriptor selects. -/
def store? (p : Plugins) (v : Option Value) : World.Action PluginError (Option StoreRef) :=
  p.stores.resolveOptional v

end Plugins

end Depot
