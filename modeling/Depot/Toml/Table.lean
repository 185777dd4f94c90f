import Depot.Json.Value
/-!
# TOML tables

The tables of a document are built up line by line. A table remembers how it came to be: under a
header of its own, only as part of the path of another header, or as part of a dotted key. Whether
it may be extended or defined again depends on that.
-/

namespace Depot.Toml

open Json

/-- How a table came to be. -/
inductive Origin where
  /-- It has a header, or is the document itself, or stands in braces. -/
  | defined
  /-- It is named in the path of another header. -/
  | implied
  /-- It is named in a dotted key. -/
  | dotted
deriving DecidableEq

/-- What stands under a key. -/
inductive Node where
  /-- A value; an array or a table written in line can no longer change. -/
  | value (v : Value)
  | table (origin : Origin) (members : List (String × Node))
  /-- An array of tables, last first. -/
  | tables (elements : List Node)

/-- A table that is being built. -/
structure Table where
  origin : Origin
  members : List (String × Node)

namespace Table

/-- A table without members. -/
def new (origin : Origin) : Table := ⟨origin, []⟩

/-- The table as what stands under a key. -/
def node (t : Table) : Node := .table t.origin t.members

/-- Applies `f` to the table at a path, creating the tables on the way. Of an array of tables the
last one is meant. A dotted key may not pass through a table that has been defined. -/
def modify (dotted : Bool) : List String → (Table → Option Table) → Table → Option Table
  | [], f, t          => f t
  | k :: path, f, t => do
    let put (n : Node) : Table := { t with members := Assoc.insert k n t.members }
    match Assoc.get? k t.members with
    | none =>
      let sub ← modify dotted path f (new (if dotted then .dotted else .implied))
      return put sub.node
    | some (.value _) => none
    | some (.table origin members) =>
      if dotted ∧ origin = .defined then
        none
      else
        let sub ← modify dotted path f ⟨origin, members⟩
        return put sub.node
    | some (.tables (.table origin members :: before)) =>
      let sub ← modify dotted path f ⟨origin, members⟩
      return put (.tables (sub.node :: before))
    | some (.tables _) => none

/-- Sets a value under a dotted key, given as its path and its last part. Keys written out and
dotted keys do not meet in one table, and no key is set twice. -/
def set? (path : List String) (key : String) (v : Value) : Table → Option Table :=
  modify true path fun t =>
    if (t.origin = .dotted) = (path = []) then none
    else if (Assoc.get? key t.members).isSome then none
    else some { t with members := Assoc.insert key (.value v) t.members }

/-- Defines the table under a header. One that is only implied so far keeps its members. -/
def define? (path : List String) (key : String) : Table → Option Table :=
  modify false path fun t =>
    let put (n : Node) : Table := { t with members := Assoc.insert key n t.members }
    match Assoc.get? key t.members with
    | none                            => some (put (.table .defined []))
    | some (.table .implied members)  => some (put (.table .defined members))
    | some _                          => none

/-- Adds an element to the array of tables under a header. -/
def append? (path : List String) (key : String) : Table → Option Table :=
  modify false path fun t =>
    let put (n : Node) : Table := { t with members := Assoc.insert key n t.members }
    match Assoc.get? key t.members with
    | none                     => some (put (.tables [.table .defined []]))
    | some (.tables elements)  => some (put (.tables (.table .defined [] :: elements)))
    | some _                   => none

/-- Sets a value in the table that the last header opened. -/
def setBelow? (header path : List String) (key : String) (v : Value) (root : Table) :
    Option Table :=
  modify false header (set? path key v) root

end Table

mutual

/-- The value of a finished node. -/
def Node.toValue : Node → Value
  | .value v         => v
  | .table _ members => .object (Node.toMembers members)
  | .tables elements => .array (Node.toItems elements).reverse

/-- The values of finished members. -/
def Node.toMembers : List (String × Node) → List (String × Value)
  | []           => []
  | (k, n) :: ms => (k, Node.toValue n) :: Node.toMembers ms

/-- The values of finished elements. -/
def Node.toItems : List Node → List Value
  | []      => []
  | n :: ns => Node.toValue n :: Node.toItems ns

end

end Depot.Toml
