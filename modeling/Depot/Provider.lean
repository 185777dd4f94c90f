import Depot.Catalog.Sets
import Depot.MediaType.Common
import Depot.Plugin.ConfigurationFile
/-!
# Providers

A provider joins the implementations with a configuration that selects one of them for each
contract. It is where a program gets its elements, data sets and stores from.
-/

namespace Depot

/-- A program knows the common media types. -/
instance (priority := low) : MediaTypes := .common

/-- Implementations and a configuration. -/
structure Provider where
  plugins : Plugins
  config : Configuration
deriving DecidableEq

/-- Why a provider fails. -/
inductive ProviderError where
  /-- The configuration has nothing for a contract. -/
  | unconfigured (contract : String)
  | plugin (e : PluginError)
  | element (e : ElementError)

/-- The wording of a fault. -/
def ProviderError.message : ProviderError → String
  | .unconfigured c => "no " ++ c ++ " section in the provider configuration"
  | .plugin e       => "plugin error: " ++ e.message
  | .element e      => "element error: " ++ e.message

/-- Why the configuration of a provider cannot be loaded. -/
structure LoadError where
  path : String
  cause : ConfigError

/-- The wording of a fault, without its cause. -/
def LoadError.message (e : LoadError) : String :=
  "failed to load provider configuration from " ++ e.path

namespace Provider

/-- A provider with all built-in implementations, apart from those of any other. -/
def ofConfig {ε : Type} (c : Configuration) : World.Action ε Provider := do
  return { plugins := ← Plugins.builtin, config := c }

/-- A provider whose configuration is in a file. -/
def load (path : String) : World.Action LoadError Provider := do
  let c ← .ofView fun w =>
    (Configuration.load path w.disk).mapError fun cause => { path, cause : LoadError }
  ofConfig c

/-- The descriptor for a contract. -/
def section? (p : Provider) (contract : String) : Except ProviderError Descriptor :=
  match p.config.get? contract with
  | some d => .ok d
  | none   => .error (.unconfigured contract)

/-- The configured element. -/
def element (p : Provider) : World.Action ProviderError ElementRef := do
  let d ← .ofView fun _ => p.section? Plugins.elementContract
  (p.plugins.element d).mapError .plugin

/-- The configured data set. -/
def dataSet (p : Provider) : World.Action ProviderError DataSet := do
  let d ← .ofView fun _ => p.section? Plugins.setContract
  (p.plugins.set d).mapError .plugin

/-- The configured store. -/
def store (p : Provider) : World.Action ProviderError StoreRef := do
  let d ← .ofView fun _ => p.section? Plugins.storeContract
  (p.plugins.store d).mapError .plugin

/-- The element that an address names. -/
def elementAt (address : String) : World.Action ProviderError ElementRef :=
  match Resolver.resolve Resolver.builtin address with
  | .ok s    => World.newElement s
  | .error e => throw (.element e)

/-- A configuration that selects nothing and lists the defaults of every implementation. -/
def defaultConfig (p : Provider) : Configuration :=
  ((Configuration.empty.insert Plugins.elementContract p.plugins.elements.template).insert
    Plugins.setContract p.plugins.sets.template).insert
    Plugins.storeContract p.plugins.stores.template

/-- The judgement on the implementations of every contract. -/
def discover (p : Provider) : List Discovery :=
  [p.plugins.elements.discover, p.plugins.sets.discover, p.plugins.stores.discover]

end Provider

end Depot
