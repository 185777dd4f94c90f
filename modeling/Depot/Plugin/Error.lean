import Depot.Config.Flat
import Depot.Disk.Fault
import Depot.Json.Printer
/-!
# Faults of configurations and plugins

A configuration can be malformed in several ways; a plugin can be unknown, invalid, unusable, or
fail to be built. The reason that a plugin gives for failing is kept in its own words.
-/

namespace Depot

/-- The two text forms of a configuration. -/
inductive TextFormat where
  | json
  | toml
deriving DecidableEq, Repr

/-- The name of a text form; also the extension of its files. -/
def TextFormat.name : TextFormat → String
  | json => "json"
  | toml => "toml"

/-- Why a configuration cannot be read or written. -/
inductive ConfigError where
  /-- A descriptor selects nothing. -/
  | missingType (contract : String)
  /-- The selector is neither a text nor null. -/
  | invalidType (contract : String) (found : Json.Value)
  /-- The parameters of an implementation are neither an object nor null. -/
  | notAnObject (contract name : String) (found : Json.Value)
  /-- The section of a contract is no object. -/
  | sectionNotObject (contract : String) (found : Json.Value)
  /-- The whole configuration is no object. -/
  | topLevelNotObject (found : Json.Value)
  /-- Something else stands where a descriptor is expected. -/
  | notDescriptor (contract : String) (found : Json.Value)
  /-- A file has neither of the known extensions. -/
  | unsupportedExtension (found : Option String) (path : String)
  /-- A plugin asks for a shared value of some type that nobody has provided. -/
  | missingCollaborator (type name : String)
  /-- A text is not in its format, or a value has no text in it. -/
  | format (format : TextFormat) (reason : String)
  | io (path : String) (fault : Disk.Fault)
  | flat (e : Config.FlatError)

/-- The wording of a fault. -/
def ConfigError.message : ConfigError → String
  | .missingType c             =>
    c ++ ": descriptor does not select an implementation (missing \"type\")"
  | .invalidType c v           => c ++ ": \"type\" must be a string or null, got " ++ v.text
  | .notAnObject c n v         =>
    c ++ ": parameters for " ++ Text.quote n ++ " must be an object, got " ++ v.text
  | .sectionNotObject c v      =>
    "malformed configuration: section " ++ Text.quote c ++ " must be an object, got " ++ v.text
  | .topLevelNotObject v       =>
    "malformed configuration: top-level configuration must be an object, got " ++ v.text
  | .notDescriptor c v         =>
    "malformed configuration: " ++ c ++ ": expected a descriptor object, got " ++ v.text
  | .unsupportedExtension e p  =>
    "malformed configuration: unsupported configuration file extension " ++ Text.quoteOption e ++
      " for " ++ p
  | .missingCollaborator t n   =>
    "malformed configuration: no " ++ t ++ " collaborator named " ++ Text.quote n
  | .format f reason           => f.name ++ " configuration error: " ++ reason
  | .io p fault                => "configuration file " ++ p ++ ": " ++ fault.message
  | .flat e                    => e.message

/-- The key of a descriptor that selects an implementation. -/
def typeKey : String := "type"

/-- What is wrong with a registered plugin. -/
inductive Flaw where
  /-- The name does not start with a letter or holds something else than letters, digits and `_`. -/
  | notIdentifier
  /-- The name is the selector of descriptors. -/
  | reserved
  /-- An earlier plugin has the name. -/
  | duplicate
  /-- A default stands under the selector of descriptors. -/
  | reservedDefault
  /-- The defaults cannot be flattened. -/
  | notPortable (e : Config.FlatError)
deriving DecidableEq

/-- The wording of a flaw. -/
def Flaw.message : Flaw → String
  | .notIdentifier   => "name must start with a letter and contain only letters, digits, or '_'"
  | .reserved        => Text.quote typeKey ++ " is reserved for the descriptor selector"
  | .duplicate       => "name already registered for this contract"
  | .reservedDefault =>
    "default configuration must not use the reserved " ++ Text.quote typeKey ++ " key"
  | .notPortable e   => "default configuration is not portable: " ++ e.message

/-- Why there is no plugin. -/
inductive PluginError where
  | validation (contract name : String) (flaw : Flaw)
  /-- The constructor failed, for a reason in its own words. -/
  | construction (contract name reason : String)
  | unusable (contract name reason : String)
  | notFound (contract name : String) (available : List String)
  /-- Nothing is registered for the contract. -/
  | unknownContract (contract : String)
  | config (e : ConfigError)

/-- The wording of a fault. -/
def PluginError.message : PluginError → String
  | .validation c n flaw     =>
    c ++ " plugin " ++ Text.quote n ++ " failed validation: " ++ flaw.message
  | .construction c n reason =>
    c ++ " plugin " ++ Text.quote n ++ " failed to construct: " ++ reason
  | .unusable c n reason     => c ++ " plugin " ++ Text.quote n ++ " is unusable: " ++ reason
  | .notFound c n available  =>
    "no " ++ c ++ " plugin named " ++ Text.quote n ++ " (available: " ++
      Text.quoteList available ++ ")"
  | .unknownContract c       => "no registry for contract " ++ c
  | .config e                => e.message

/-- The plugin a fault is about, if any. -/
def PluginError.pluginName : PluginError → Option String
  | .validation _ n _   => some n
  | .construction _ n _ => some n
  | .unusable _ n _     => some n
  | .notFound _ n _     => some n
  | _                   => none

end Depot
