import Depot.Decimal.Binary64
/-!
# Shortest decimals

The decimal with the fewest digits that reads back as a given binary number, and of those with
that many digits the one nearest to it. A decimal reads back if it lies in the interval of reals
that round to the number; the ends belong to it when the significand is even. All arithmetic is on
natural numbers.
-/

namespace Depot

/-- The positive decimal `digits * 10 ^ exponent`. -/
structure Decimal where
  digits : Nat
  exponent : Int
deriving DecidableEq, Repr

namespace Binary64

/-- A positive number and the ends of its rounding interval, as fractions with one denominator. -/
structure Interval where
  low : Nat
  value : Nat
  high : Nat
  denominator : Nat
  /-- Whether the ends round to the number too. -/
  closed : Bool

/-- The rounding interval of the magnitude. At a power of two the neighbour below is only half as
far away as the one above. -/
def interval (x : Binary64) : Interval :=
  let m := x.significand
  let below := if x.fractionField = 0 ∧ 1 < x.exponentField then 1 else 2
  let q := x.exponent - 2
  let scale := Nat.pow 2 q.toNat
  { low := (4 * m - below) * scale
    value := 4 * m * scale
    high := (4 * m + 2) * scale
    denominator := Nat.pow 2 (-q).toNat
    closed := m % 2 = 0 }

namespace Interval

/-- Multiplies the fractions by `10 ^ (-t)`. -/
def shift (i : Interval) (t : Int) : Interval :=
  let up := Nat.pow 10 (-t).toNat
  { i with
    low := i.low * up
    value := i.value * up
    high := i.high * up
    denominator := i.denominator * Nat.pow 10 t.toNat }

/-- Whether an integer lies in the interval. -/
def holds (i : Interval) (d : Nat) : Bool :=
  let n := d * i.denominator
  if i.closed then i.low ≤ n && n ≤ i.high else i.low < n && n < i.high

/-- The integer of the interval that is one of the value's two neighbours; of two such the nearer
one, and the even one if they are equally near. -/
def integer? (i : Interval) : Option Nat :=
  let d := i.value / i.denominator
  match i.holds d, i.holds (d + 1) with
  | false, false => none
  | true, false  => some d
  | false, true  => some (d + 1)
  | true, true   =>
    let r := 2 * (i.value % i.denominator)
    if r < i.denominator ∨ (r = i.denominator ∧ d % 2 = 0) then some d else some (d + 1)

/-- The exponent of the leading digit of the value. -/
def leading (i : Interval) : Int :=
  let whole := i.value / i.denominator
  if whole ≠ 0 then
    (Nat.toDigits 10 whole).length - 1
  else
    let places := (List.range 350).find? fun k => i.denominator ≤ i.value * Nat.pow 10 (k + 1)
    .negSucc (places.getD 0)

/-- The decimal with the fewest digits in the interval, tried from one digit up to seventeen. -/
def shortest (i : Interval) : Decimal :=
  let hit := (List.range 17).findSome? fun (k : Nat) =>
    let t := i.leading - (k : Nat)
    (i.shift t).integer?.map fun d => (⟨d, t⟩ : Decimal)
  hit.getD ⟨0, 0⟩

end Interval

end Binary64

namespace Decimal

/-- Drops the zeros at the end of a list of digits. -/
def dropZeros (digits : List Char) : List Char :=
  (digits.reverse.dropWhile (· == '0')).reverse

/-- The digits, first to last, without zeros at the end. -/
def significant (d : Decimal) : List Char := dropZeros (Nat.toDigits 10 d.digits)

/-- The exponent of the leading digit. -/
def leading (d : Decimal) : Int := d.exponent + (Nat.toDigits 10 d.digits).length - 1

/-- Positional writing, with at least one digit on each side of the point. -/
def positional (d : Decimal) : List Char :=
  let ds := d.significant
  let e := d.leading
  if e < 0 then
    '0' :: '.' :: (List.replicate (-e - 1).toNat '0' ++ ds)
  else
    let whole := e.toNat + 1
    if ds.length ≤ whole then
      ds ++ List.replicate (whole - ds.length) '0' ++ ['.', '0']
    else
      ds.take whole ++ '.' :: ds.drop whole

/-- Writing with a signed power of ten after the letter `e`. -/
def scientific (d : Decimal) : List Char :=
  let mantissa :=
    match d.significant with
    | []      => ['0']
    | [c]     => [c]
    | c :: cs => c :: '.' :: cs
  let e := d.leading
  mantissa ++ 'e' :: (if e < 0 then '-' else '+') :: Nat.toDigits 10 e.natAbs

end Decimal

/-- How the exponent of the leading digit decides between the two ways of writing. -/
structure FloatFormat where
  /-- Whether a number with this exponent is written positionally. -/
  positional : Int → Bool

/-- Writes a finite number; a zero keeps its sign. -/
def FloatFormat.write (format : FloatFormat) (x : Binary64) : List Char :=
  let body :=
    if x.significand = 0 then
      ['0', '.', '0']
    else
      let d := x.interval.shortest
      if format.positional d.leading then d.positional else d.scientific
  if x.negative then '-' :: body else body

end Depot
