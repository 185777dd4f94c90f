import Depot.Dict
import Depot.Plugin.Error
/-!
# Descriptors

A descriptor selects one implementation of a contract and holds the parameters of any number of
them. As a JSON object it has the selection under `type` and a section for each implementation.
-/

namespace Depot

open Json

/-- A choice of implementation, with parameters. -/
structure Descriptor where
  /-- The implementation chosen, if any. -/
  selected : Option String
  /-- Parameters by implementation. -/
  sections : Dict String Object
deriving DecidableEq

namespace Descriptor

/-- Nothing selected, no parameters. -/
def empty : Descriptor := { selected := none, sections := .empty }

instance : Inhabited Descriptor := ⟨empty⟩

/-- Selects `name` with these parameters. -/
def selecting (name : String) (params : Object) : Descriptor :=
  { selected := some name, sections := Dict.empty.insert name params }

/-- Changes the selection. -/
def select (d : Descriptor) (name : String) : Descriptor := { d with selected := some name }

/-- Sets the parameters of one implementation. -/
def withParams (d : Descriptor) (name : String) (params : Object) : Descriptor :=
  { d with sections := d.sections.insert name params }

/-- The parameters of an implementation, if it has a section. -/
def params? (d : Descriptor) (name : String) : Option Object := d.sections.get? name

/-- The implementations with a section, in order. -/
def implementations (d : Descriptor) : List String := d.sections.keys

/-- The selected implementation and its parameters; without a section it has none. -/
def selection (d : Descriptor) (contract : String) : Except ConfigError (String × Object) :=
  match d.selected with
  | none      => .error (.missingType contract)
  | some name => .ok (name, (d.params? name).getD [])

/-- Reads one member into a descriptor. A null section is one without parameters. -/
def readMember (contract : String) (d : Descriptor) (member : String × Value) :
    Except ConfigError Descriptor :=
  let (key, value) := member
  if key = typeKey then
    match value with
    | .null     => .ok { d with selected := none }
    | .string s => .ok { d with selected := some s }
    | other     => .error (.invalidType contract other)
  else
    match value with
    | .object params => .ok (d.withParams key params)
    | .null          => .ok (d.withParams key [])
    | other          => .error (.notAnObject contract key other)

/-- Reads a descriptor; faults name the contract. -/
def ofObject (contract : String) (o : Object) : Except ConfigError Descriptor :=
  o.foldlM (readMember contract) empty

/-- Reads a descriptor where there may be none: nothing, null, or a descriptor that selects
nothing. -/
def ofOptional (contract : String) : Option Value → Except ConfigError (Option Descriptor)
  | none             => .ok none
  | some .null       => .ok none
  | some (.object o) => do
    let d ← ofObject contract o
    return if d.selected.isSome then some d else none
  | some other       => .error (.notDescriptor contract other)

/-- The JSON object of a descriptor. -/
def toObject (d : Descriptor) : Object :=
  Assoc.insertAll [(typeKey, .ofOption d.selected)]
    (d.sections.entries.map fun (name, params) => (name, .object params))

/-- The JSON value of a descriptor. -/
def toValue (d : Descriptor) : Value := .object d.toObject

end Descriptor

end Depot
