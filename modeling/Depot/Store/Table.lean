import Depot.Dict
import Depot.Json.Printer
import Depot.Json.Reader
import Depot.Key
/-!
# Tables

A table holds JSON values by key. It is written as a JSON list of pairs, since the members of a
JSON object have texts as keys only.
-/

namespace Depot

open Json

/-- JSON values by key. -/
abbrev Table := Dict Key Value

namespace Table

/-- An entry as a JSON value. -/
def entryToJson (e : Key × Value) : Value := .array [e.1.toJson, e.2]

/-- An entry of a JSON value, its members as they stand in a text. -/
def entryOfJson? : Value → Option (Key × Value)
  | .array [k, v] => (Key.ofJson? k).map fun k => (k, v.sorted)
  | _             => none

/-- The written form of a table. -/
def encode (t : Table) : Bytes := (Value.array (t.entries.map entryToJson)).text.toUTF8

/-- Reads a table. Of several entries under one key the last stays. -/
def decode? (bytes : Bytes) : Option Table := do
  match ← Value.verbatimBytes? bytes with
  | .array items => return .ofList (← items.mapM entryOfJson?)
  | _            => none

end Table

end Depot
