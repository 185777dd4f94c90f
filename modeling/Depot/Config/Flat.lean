import Depot.Json.Value
import Depot.Text.Quoted
/-!
# Flat configurations

A nested configuration is flattened into a map from dotted paths to leaves. An empty object is a
leaf, so that nothing is lost. A key that is empty or holds a dot has no place in a path.
-/

namespace Depot.Config

open Json

/-- Why a configuration cannot be flattened, or a flat one not expanded. -/
inductive FlatError where
  /-- A key that is empty or holds a dot. -/
  | invalidKey (key : String)
  /-- A path that leads through or to a place that is taken. -/
  | conflict (path : String)
deriving DecidableEq

/-- The wording of a fault. -/
def FlatError.message : FlatError → String
  | .invalidKey k  =>
    "configuration key " ++ Text.quote k ++
      " cannot be flattened: keys must be non-empty and must not contain '.'"
  | .conflict path => "flat configuration conflict at " ++ Text.quote path

/-! ### Paths -/

/-- Whether a key can be a segment of a path. -/
def isSegment (key : String) : Bool := key ≠ "" && !key.toList.contains '.'

/-- The segments of a path, joined by dots. -/
def joinPath (segments : List String) : String := ".".intercalate segments

/-- Splits at every dot. -/
def splitDots : List Char → List (List Char)
  | []      => [[]]
  | c :: cs =>
    if c = '.' then
      [] :: splitDots cs
    else
      match splitDots cs with
      | []      => [[c]]
      | s :: ss => (c :: s) :: ss

/-- The segments of a dotted path. -/
def splitPath (path : String) : List String := (splitDots path.toList).map .ofList

/-! ### Flattening -/

mutual

/-- The leaves below a member, each with the segments that lead to it. -/
def memberLeaves (key : String) : Value → Except FlatError (List (List String × Value))
  | .object (m :: ms) => (leaves (m :: ms)).map (·.map fun (path, v) => (key :: path, v))
  | v                 => .ok [([key], v)]

/-- The leaves of an object, each with the segments that lead to it. -/
def leaves : List (String × Value) → Except FlatError (List (List String × Value))
  | []           => .ok []
  | (k, v) :: ms =>
    if isSegment k then do
      let first ← memberLeaves k v
      let rest ← leaves ms
      return first ++ rest
    else
      .error (.invalidKey k)

end

/-- Flattens a configuration into dotted paths. -/
def flatten (config : Object) : Except FlatError Object :=
  (leaves config).map fun ls => Assoc.ofEntries (ls.map fun (path, v) => (joinPath path, v))

/-! ### Expanding -/

/-- Puts a value at a path below an object, or fails if the place is taken. A leaf may replace
anything but an object with members. -/
def insertPath : List String → Value → Object → Option Object
  | [], _, o           => some o
  | [k], v, o          =>
    match Assoc.get? k o with
    | some (.object (_ :: _)) => none
    | _                       => some (Assoc.insert k v o)
  | k :: l :: path, v, o =>
    match Assoc.get? k o with
    | none             => (insertPath (l :: path) v []).map fun n => Assoc.insert k (.object n) o
    | some (.object n) => (insertPath (l :: path) v n).map fun n => Assoc.insert k (.object n) o
    | some _           => none

/-- Puts the entries of a flat configuration in place, one after the other. -/
def expandFrom (o : Object) : List (String × Value) → Except FlatError Object
  | []              => .ok o
  | (path, v) :: es =>
    match insertPath (splitPath path) v o with
    | some o => expandFrom o es
    | none   => .error (.conflict path)

/-- Expands dotted paths into a nested configuration. -/
def expand (flat : Object) : Except FlatError Object := expandFrom [] flat

end Depot.Config
