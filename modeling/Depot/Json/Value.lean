import Depot.Assoc
import Depot.Json.Number
/-!
# JSON values

A value is a tree. The members of an object stand in key order, each key once; a text may give
them in another order, which `Value.sorted` mends. `Value.Ordered` says that every object of a
value is in that form.
-/

namespace Depot.Json

/-- A JSON value. -/
inductive Value where
  | null
  | bool (b : Bool)
  | number (n : Number)
  | string (s : String)
  | array (items : List Value)
  | object (members : List (String × Value))

/-- The members of an object. -/
abbrev Object := List (String × Value)

instance : Inhabited Value := ⟨.null⟩

namespace Value

/-! ### Equality -/

mutual

/-- Decides equality of values. -/
def decEq : (a b : Value) → Decidable (a = b)
  | .null, .null         => .isTrue rfl
  | .bool a, .bool b     => if h : a = b then .isTrue (h ▸ rfl) else .isFalse (by simpa using h)
  | .number a, .number b => if h : a = b then .isTrue (h ▸ rfl) else .isFalse (by simpa using h)
  | .string a, .string b => if h : a = b then .isTrue (h ▸ rfl) else .isFalse (by simpa using h)
  | .array a, .array b   =>
    match decEqItems a b with
    | .isTrue h  => .isTrue (h ▸ rfl)
    | .isFalse h => .isFalse (by simpa using h)
  | .object a, .object b =>
    match decEqMembers a b with
    | .isTrue h  => .isTrue (h ▸ rfl)
    | .isFalse h => .isFalse (by simpa using h)
  | .null, .bool _ | .null, .number _ | .null, .string _ | .null, .array _ | .null, .object _
  | .bool _, .null | .bool _, .number _ | .bool _, .string _ | .bool _, .array _
  | .bool _, .object _ | .number _, .null | .number _, .bool _ | .number _, .string _
  | .number _, .array _ | .number _, .object _ | .string _, .null | .string _, .bool _
  | .string _, .number _ | .string _, .array _ | .string _, .object _ | .array _, .null
  | .array _, .bool _ | .array _, .number _ | .array _, .string _ | .array _, .object _
  | .object _, .null | .object _, .bool _ | .object _, .number _ | .object _, .string _
  | .object _, .array _ => .isFalse nofun

/-- Decides equality of lists of items. -/
def decEqItems : (as bs : List Value) → Decidable (as = bs)
  | [], []           => .isTrue rfl
  | [], _ :: _       => .isFalse nofun
  | _ :: _, []       => .isFalse nofun
  | a :: as, b :: bs =>
    match decEq a b, decEqItems as bs with
    | .isTrue h, .isTrue t => .isTrue (h ▸ t ▸ rfl)
    | .isFalse h, _        => .isFalse fun e => h (List.cons.inj e).1
    | _, .isFalse t        => .isFalse fun e => t (List.cons.inj e).2

/-- Decides equality of lists of members. -/
def decEqMembers : (as bs : List (String × Value)) → Decidable (as = bs)
  | [], []                       => .isTrue rfl
  | [], _ :: _                   => .isFalse nofun
  | _ :: _, []                   => .isFalse nofun
  | (k, a) :: as, (l, b) :: bs =>
    if hk : k = l then
      match decEq a b, decEqMembers as bs with
      | .isTrue h, .isTrue t => .isTrue (hk ▸ h ▸ t ▸ rfl)
      | .isFalse h, _        => .isFalse fun e => h (Prod.mk.inj (List.cons.inj e).1).2
      | _, .isFalse t        => .isFalse fun e => t (List.cons.inj e).2
    else
      .isFalse fun e => hk (Prod.mk.inj (List.cons.inj e).1).1

end

instance : DecidableEq Value := decEq

/-! ### Views -/

/-- The members, if the value is an object. -/
def object? : Value → Option Object
  | .object ms => some ms
  | _          => none

/-- The truth value, if it is one. -/
def bool? : Value → Option Bool
  | .bool b => some b
  | _       => none

/-- The natural number, if it is one. -/
def nat? : Value → Option Nat
  | .number n => n.nat?
  | _         => none

/-- The text, if it is one. -/
def string? : Value → Option String
  | .string s => some s
  | _         => none

/-- A text, or null if there is none. -/
def ofOption : Option String → Value
  | none   => .null
  | some s => .string s

/-! ### Key order -/

mutual

/-- Brings the members of every object into key order; of several members with one key the last
stays. -/
def sorted : Value → Value
  | .array items    => .array (sortedItems items)
  | .object members => .object (Assoc.ofEntries (sortedMembers members))
  | v               => v

/-- `sorted` on each item. -/
def sortedItems : List Value → List Value
  | []      => []
  | v :: vs => sorted v :: sortedItems vs

/-- `sorted` on each member. -/
def sortedMembers : List (String × Value) → List (String × Value)
  | []           => []
  | (k, v) :: ms => (k, sorted v) :: sortedMembers ms

end

mutual

/-- The members of every object stand in key order, each key once. -/
def Ordered : Value → Prop
  | .array items    => OrderedItems items
  | .object members => Assoc.Ordered members ∧ OrderedMembers members
  | _               => True

/-- `Ordered` of each item. -/
def OrderedItems : List Value → Prop
  | []      => True
  | v :: vs => Ordered v ∧ OrderedItems vs

/-- `Ordered` of each member. -/
def OrderedMembers : List (String × Value) → Prop
  | []           => True
  | (_, v) :: ms => Ordered v ∧ OrderedMembers ms

end

end Value

/-- The members stand in key order, at every depth. -/
def Object.Ordered (o : Object) : Prop := (Value.object o).Ordered

end Depot.Json
