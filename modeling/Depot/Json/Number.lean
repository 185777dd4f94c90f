import Depot.Decimal.Shortest
/-!
# JSON numbers

A number is an integer of 64 bits, signed or not, or a finite binary float. A literal without
fraction and exponent is an integer if it fits; every other literal is read as a float, by a fixed
sequence of float operations rather than by rounding the exact value once.
-/

namespace Depot.Json

/-- An integer that fits into 64 bits, with or without sign. -/
structure Integer where
  val : Int
  lower : -0x8000000000000000 ≤ val := by decide
  upper : val < 0x10000000000000000 := by decide
deriving DecidableEq

/-- A JSON number. -/
inductive Number where
  | int (n : Integer)
  | float (x : Binary64)
deriving DecidableEq

namespace Number

/-- An integer as a number, if it fits. -/
def ofInt? (n : Int) : Option Number :=
  if h : -0x8000000000000000 ≤ n ∧ n < 0x10000000000000000 then some (.int ⟨n, h.1, h.2⟩) else none

/-- A machine word as a number. -/
def ofUInt64 (n : UInt64) : Number :=
  .int ⟨n.toNat, by omega, by have := n.toNat_lt; omega⟩

/-- A signed machine word as a number. -/
def ofInt64 (n : Int64) : Number :=
  .int ⟨n.toInt, by have := n.le_toInt; omega, by have := n.toInt_lt; omega⟩

/-- The number as a natural number, if it is one; a float never is. -/
def nat? : Number → Option Nat
  | .int n   => if 0 ≤ n.val then some n.val.toNat else none
  | .float _ => none

/-- The number as a signed machine word, if it fits; a float never does. -/
def int64? : Number → Option Int64
  | .int n   => if n.val < 0x8000000000000000 then some (.ofInt n.val) else none
  | .float _ => none

/-- Numbers are written positionally from `0.00001` up to sixteen digits before the point. -/
def floatFormat : FloatFormat := ⟨fun e => -5 ≤ e && e ≤ 15⟩

/-- The digits of an integer. -/
def writeInt (n : Int) : List Char :=
  if n < 0 then '-' :: Nat.toDigits 10 n.natAbs else Nat.toDigits 10 n.natAbs

/-- The literal of a number. -/
def write : Number → List Char
  | .int n   => writeInt n.val
  | .float x => floatFormat.write x

/-! ### Reading -/

/-- The value of a run of digits. -/
def ofDigits (digits : List Char) : Nat :=
  digits.foldl (fun n c => n * 10 + (c.toNat - 48)) 0

/-- The longest run of digits at the front, and the rest. -/
def spanDigits (cs : List Char) : List Char × List Char :=
  (cs.takeWhile Char.isDigit, cs.dropWhile Char.isDigit)

/-- The parts of a literal. -/
structure Literal where
  negative : Bool
  whole : List Char
  /-- The digits after the point, at least one. -/
  fraction : Option (List Char)
  /-- Whether the exponent is negative, and its digits, at least one. -/
  power : Option (Bool × List Char)

/-- The digits before the point: a zero alone, or a run that does not begin with one. -/
def splitWhole (cs : List Char) : Option (List Char × List Char) :=
  let (digits, rest) := spanDigits cs
  match digits with
  | []           => none
  | '0' :: _ :: _ => none
  | _            => some (digits, rest)

/-- The fraction, if a point comes next. -/
def splitFraction : List Char → Option (Option (List Char) × List Char)
  | '.' :: cs =>
    let (digits, rest) := spanDigits cs
    if digits = [] then none else some (some digits, rest)
  | cs        => some (none, cs)

/-- The exponent, if its letter comes next. -/
def splitPower : List Char → Option (Option (Bool × List Char) × List Char)
  | [] => some (none, [])
  | e :: cs =>
    if e = 'e' ∨ e = 'E' then
      let (minus, cs) :=
        match cs with
        | '-' :: cs => (true, cs)
        | '+' :: cs => (false, cs)
        | cs        => (false, cs)
      let (digits, rest) := spanDigits cs
      if digits = [] then none else some (some (minus, digits), rest)
    else
      some (none, e :: cs)

/-- Splits a literal into its parts; nothing may be left over. -/
def Literal.ofChars? (cs : List Char) : Option Literal := do
  let (negative, cs) :=
    match cs with
    | '-' :: cs => (true, cs)
    | cs        => (false, cs)
  let (whole, cs) ← splitWhole cs
  let (fraction, cs) ← splitFraction cs
  let (power, cs) ← splitPower cs
  if cs = [] then some { negative, whole, fraction, power } else none

/-- Reads digits into a significand for as long as it fits into a word; gives also how many
digits fitted and how many did not. -/
def accumulate (significand taken : Nat) : List Char → Nat × Nat × Nat
  | []      => (significand, taken, 0)
  | c :: cs =>
    let next := significand * 10 + (c.toNat - 48)
    if next < 0x10000000000000000 then accumulate next (taken + 1) cs
    else (significand, taken, cs.length + 1)

/-- Scales a float by a power of ten in steps that a float can hold. Division by more than the
largest step is done in several; a result too large is refused. -/
def scale (fuel : Nat) (f : Float) (e : Int) : Option Float :=
  if e.natAbs ≤ 308 then
    let p := Float.ofScientific 1 false e.natAbs
    if 0 ≤ e then
      let g := f * p
      if g.isInf then none else some g
    else
      some (f / p)
  else if f == 0.0 then
    some f
  else if 0 ≤ e then
    none
  else
    match fuel with
    | 0        => some 0.0
    | fuel + 1 => scale fuel (f / 1e308) (e + 308)

/-- The largest exponent that is still counted. -/
def maxPower : Nat := 0x7fffffff

/-- The float of a literal. Digits that no longer fit into the significand only count as places
before the point, and not at all after it. -/
def Literal.float? (l : Literal) : Option Binary64 := do
  let (significand, _, skipped) := accumulate 0 0 l.whole
  let (significand, shift) :=
    match l.fraction with
    | none        => (significand, (skipped : Int))
    | some digits =>
      let (s, taken, _) := accumulate significand 0 digits
      (s, (skipped : Int) - taken)
  let magnitude ←
    match l.power with
    | none => scale 8 significand.toUInt64.toFloat shift
    | some (minus, digits) =>
      let p := ofDigits digits
      if maxPower < p then
        if significand ≠ 0 ∧ minus = false then none else some 0.0
      else
        scale 8 significand.toUInt64.toFloat (if minus then shift - p else shift + p)
  return .ofFloat (if l.negative then -magnitude else magnitude)

/-- The integer of a literal without fraction and exponent, if it fits; a negative zero is no
integer. -/
def Literal.integer? (l : Literal) : Option Number :=
  match l.fraction, l.power with
  | none, none =>
    let n := ofDigits l.whole
    if l.negative then
      if n = 0 then none else if n ≤ 0x8000000000000000 then ofInt? (-n) else none
    else
      ofInt? n
  | _, _ => none

/-- The number of a literal, if it is well formed and not too large. -/
def ofChars? (cs : List Char) : Option Number := do
  let l ← Literal.ofChars? cs
  match l.integer? with
  | some n => some n
  | none   => (l.float?).map .float

end Number

end Depot.Json
