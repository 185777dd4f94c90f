import Depot.Json.Value
import Depot.Text.Quoted
/-!
# Keys

The keys of key-value stores: integers, texts and byte lists, in this order, each kind in its own
order. The JSON form of a key names its kind.
-/

namespace Depot

/-- A key of a key-value store. -/
inductive Key where
  | int (n : Int64)
  | text (s : String)
  | bytes (b : List UInt8)
deriving DecidableEq

namespace Key

/-! ### Order -/

/-- Place of the kind in the order. -/
def rank : Key → Nat
  | int _   => 0
  | text _  => 1
  | bytes _ => 2

/-- The integer; zero for other kinds. -/
def intPart : Key → Int64
  | int n => n
  | _     => 0

/-- The text; empty for other kinds. -/
def textPart : Key → String
  | text s => s
  | _      => ""

/-- The bytes; none for other kinds. -/
def bytesPart : Key → List UInt8
  | bytes b => b
  | _       => []

/-- Keys are ordered by kind, then by value. -/
instance : Ord Key :=
  ⟨compareLex (compareOn rank) (compareLex (compareOn intPart)
    (compareLex (compareOn textPart) (compareOn bytesPart)))⟩

instance : Std.TransOrd Key :=
  inferInstanceAs (Std.TransCmp (compareLex (compareOn rank) (compareLex (compareOn intPart)
    (compareLex (compareOn textPart) (compareOn bytesPart)))))

theorem compare_eq {a b : Key} :
    compare a b = (compare a.rank b.rank).then ((compare a.intPart b.intPart).then
      ((compare a.textPart b.textPart).then (compare a.bytesPart b.bytesPart))) := rfl

instance : Std.LawfulEqOrd Key where
  eq_of_compare {a b} h := by
    rw [compare_eq] at h
    simp only [Ordering.then_eq_eq, Std.LawfulEqOrd.compare_eq_iff_eq] at h
    cases a <;> cases b <;> simp_all [rank, intPart, textPart, bytesPart]

/-! ### Text and JSON -/

/-- The key as it stands in messages. -/
def display : Key → String
  | int n   => .ofList (Json.Number.writeInt n.toInt)
  | text s  => Text.quote s
  | bytes b => "0x" ++ Hex.text b

/-- The JSON form: an object whose only key names the kind. -/
def toJson : Key → Json.Value
  | int n   => .object [("int", .number (.ofInt64 n))]
  | text s  => .object [("str", .string s)]
  | bytes b => .object [("bytes", .array (b.map fun x => .number (.ofUInt64 x.toUInt64)))]

/-- A byte given as a JSON value. -/
def byte? (v : Json.Value) : Option UInt8 := do
  let n ← v.nat?
  if n < 256 then some (.ofNat n) else none

/-- The key of a JSON form, its members as they stand in the text. -/
def ofJson? : Json.Value → Option Key
  | .object [("int", .number n)]  => n.int64?.map int
  | .object [("str", .string s)]  => some (text s)
  | .object [("bytes", .array vs)] => (vs.mapM byte?).map bytes
  | _                             => none

end Key

end Depot
