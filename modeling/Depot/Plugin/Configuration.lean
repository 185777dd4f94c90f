import Depot.Json.Reader
import Depot.Plugin.Descriptor
import Depot.Toml.Printer
import Depot.Toml.Reader
/-!
# Configurations of several contracts

A configuration holds a descriptor for each of several contracts. It can be written as a nested
object, as a flat map of dotted paths, and as JSON or TOML text, and read from each of them.
-/

namespace Depot

open Json

/-- Descriptors by contract. -/
structure Configuration where
  sections : Dict String Descriptor
deriving DecidableEq

namespace Configuration

/-- No sections. -/
def empty : Configuration := { sections := .empty }

instance : Inhabited Configuration := ⟨empty⟩

/-- The descriptor of a contract, if there is one. -/
def get? (c : Configuration) (contract : String) : Option Descriptor := c.sections.get? contract

/-- Sets the descriptor of a contract. -/
def insert (c : Configuration) (contract : String) (d : Descriptor) : Configuration :=
  { sections := c.sections.insert contract d }

/-- The contracts, in order. -/
def contracts (c : Configuration) : List String := c.sections.keys

/-- Reads one section into a configuration. -/
def readSection (c : Configuration) (member : String × Value) :
    Except ConfigError Configuration :=
  match member with
  | (contract, .object o) => (Descriptor.ofObject contract o).map (c.insert contract)
  | (contract, other)     => .error (.sectionNotObject contract other)

/-- Reads a nested object. -/
def ofObject (o : Object) : Except ConfigError Configuration := o.foldlM readSection empty

/-- The nested object. -/
def toObject (c : Configuration) : Object :=
  c.sections.entries.map fun (contract, d) => (contract, d.toValue)

/-- The flat map of dotted paths. -/
def toFlat (c : Configuration) : Except ConfigError Object :=
  (Config.flatten c.toObject).mapError .flat

/-- Reads a flat map of dotted paths. -/
def ofFlat (flat : Object) : Except ConfigError Configuration :=
  match Config.expand flat with
  | .ok o    => ofObject o
  | .error e => .error (.flat e)

/-- Reads a value that must be a nested object. -/
def ofValue : Value → Except ConfigError Configuration
  | .object o => ofObject o
  | other     => .error (.topLevelNotObject other)

/-- Reads JSON text. -/
def ofJsonText (s : String) : Except ConfigError Configuration :=
  match Value.ofText? s with
  | some v => ofValue v
  | none   => .error (.format .json "the text is not a JSON value")

/-- Indented JSON text. -/
def toJsonText (c : Configuration) : String := (Value.object c.toObject).prettyText

/-- Reads TOML text. There is no null in TOML; a missing selector means that nothing is selected. -/
def ofTomlText (s : String) : Except ConfigError Configuration :=
  match Toml.ofText? s with
  | some v => ofValue v
  | none   => .error (.format .toml "the text is not a TOML document")

/-- TOML text, without the members that are null. -/
def toTomlText (c : Configuration) : Except ConfigError String :=
  match Toml.text? (Toml.withoutNulls c.toObject) with
  | some s => .ok s
  | none   => .error (.format .toml "the value cannot be written as TOML")

/-- Reads text of either form. -/
def ofFormatText : TextFormat → String → Except ConfigError Configuration
  | .json, s => ofJsonText s
  | .toml, s => ofTomlText s

/-- Text of either form. -/
def toFormatText (c : Configuration) : TextFormat → Except ConfigError String
  | .json => .ok c.toJsonText
  | .toml => c.toTomlText

end Configuration

end Depot
