/-!
# Base64

The standard alphabet, three bytes to four symbols, padded with `=` to whole quads. Reading asks
for the canonical form: full padding, and zero in the bits that no byte fills.
-/

namespace Depot.Base64

/-- The symbols, by value. -/
def alphabet : List Char :=
  "ABCDEFGHIJKLMNOPQRSTUVWXYZabcdefghijklmnopqrstuvwxyz0123456789+/".toList

/-- The symbol of a six-bit value. -/
def symbol (n : Nat) : Char := alphabet.getD n 'A'

/-- The padding, as a byte. -/
def pad : UInt8 := 61

/-- The value of a symbol given by its code. -/
def value? (b : UInt8) : Option Nat :=
  let n := b.toNat
  if 65 ≤ n ∧ n ≤ 90 then some (n - 65)
  else if 97 ≤ n ∧ n ≤ 122 then some (n - 71)
  else if 48 ≤ n ∧ n ≤ 57 then some (n + 4)
  else if n = 43 then some 62
  else if n = 47 then some 63
  else none

/-- The padded form of some bytes. -/
def encode : List UInt8 → List Char
  | [] => []
  | [a] =>
    let n := a.toNat * 16
    [symbol (n / 64), symbol (n % 64), '=', '=']
  | [a, b] =>
    let n := (a.toNat * 256 + b.toNat) * 4
    [symbol (n / 4096), symbol (n / 64 % 64), symbol (n % 64), '=']
  | a :: b :: c :: rest =>
    let n := (a.toNat * 256 + b.toNat) * 256 + c.toNat
    symbol (n / 262144) :: symbol (n / 4096 % 64) :: symbol (n / 64 % 64) :: symbol (n % 64) ::
      encode rest

/-- Why a text is not the canonical form of any bytes. -/
inductive Error where
  | invalidSymbol (byte : UInt8) (offset : Nat)
  | invalidLength (length : Nat)
  | invalidLastSymbol (byte : UInt8) (offset : Nat)
  | invalidPadding
deriving DecidableEq, Repr

/-- The wording of a fault. -/
def Error.message : Error → String
  | .invalidSymbol b i     => s!"Invalid symbol {b}, offset {i}."
  | .invalidLength n       => s!"Invalid input length: {n}"
  | .invalidLastSymbol b i => s!"Invalid last symbol {b}, offset {i}."
  | .invalidPadding        => "Invalid padding"

/-- The values of a run of symbols; `offset` is the place of the first. -/
def values (offset : Nat) : List UInt8 → Except Error (List Nat)
  | []      => .ok []
  | b :: bs =>
    match value? b with
    | none   => .error (.invalidSymbol b offset)
    | some v => (values (offset + 1) bs).map (v :: ·)

/-- The symbols of the last quad, up to the first padding. Padding may stand in the third and
fourth place only, with nothing but padding after it; `place` counts within the quad, `padAt` is
where the padding began. -/
def lastSymbols (offset place : Nat) (padAt : Option Nat) : List UInt8 → Except Error (List UInt8)
  | []      => .ok []
  | b :: bs =>
    if b = pad then
      if place < 2 then .error (.invalidSymbol b (offset + place))
      else lastSymbols offset (place + 1) (padAt.or (some place)) bs
    else
      match padAt with
      | some p => .error (.invalidSymbol pad (offset + p))
      | none   =>
        match value? b with
        | none   => .error (.invalidSymbol b (offset + place))
        | some _ => (lastSymbols offset (place + 1) none bs).map (b :: ·)

/-- Reads the last quad, which may be padded or cut short. -/
def decodeLast (offset : Nat) (quad : List UInt8) : Except Error (List UInt8) := do
  let symbols ← lastSymbols offset 0 none quad
  if symbols.length < 2 then
    throw (.invalidLength (offset + symbols.length))
  if quad.length ≠ 4 then
    throw .invalidPadding
  let last := symbols.getLastD pad
  match symbols.map fun b => (value? b).getD 0 with
  | [a, b] =>
    if b % 16 ≠ 0 then throw (.invalidLastSymbol last (offset + 1))
    return [.ofNat (a * 4 + b / 16)]
  | [a, b, c] =>
    if c % 4 ≠ 0 then throw (.invalidLastSymbol last (offset + 2))
    return [.ofNat (a * 4 + b / 16), .ofNat (b % 16 * 16 + c / 4)]
  | [a, b, c, d] =>
    return [.ofNat (a * 4 + b / 16), .ofNat (b % 16 * 16 + c / 4), .ofNat (c % 4 * 64 + d)]
  | _ => return []

/-- Reads quads from `offset` on. The last one, even if complete, is left to `decodeLast`. -/
def decodeFrom (offset : Nat) : List UInt8 → Except Error (List UInt8)
  | []                           => .ok []
  | a :: b :: c :: d :: e :: rest =>
    match values offset [a, b, c, d] with
    | .ok [v, w, x, y] =>
      (decodeFrom (offset + 4) (e :: rest)).map fun bytes =>
        .ofNat (v * 4 + w / 16) :: .ofNat (w % 16 * 16 + x / 4) :: .ofNat (x % 4 * 64 + y) :: bytes
    | .ok _     => .ok []
    | .error e' => .error e'
  | quad                         => decodeLast offset quad

/-- Reads a padded text. A single symbol left over at the end that is neither a symbol nor padding
is reported before anything else. -/
def decode (text : List UInt8) : Except Error (List UInt8) :=
  let last := text.getLastD pad
  if text.length % 4 = 1 ∧ last ≠ pad ∧ value? last = none then
    .error (.invalidSymbol last (text.length - 1))
  else
    decodeFrom 0 text

end Depot.Base64
