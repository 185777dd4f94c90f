import Depot.Text.Basic
/-!
# Hexadecimal text

Two digits a byte, high half first. Written digits are lower case; both cases are read.
-/

namespace Depot.Hex

/-- The digit of a half byte, in lower case. -/
def digit (n : UInt8) : Char :=
  if n < 10 then Char.ofNat (48 + n.toNat) else Char.ofNat (87 + n.toNat)

/-- The digits of some bytes. -/
def encode (bytes : List UInt8) : List Char :=
  bytes.flatMap fun b => [digit (b / 16), digit (b % 16)]

/-- The digits of some bytes, as text. -/
def text (bytes : List UInt8) : String := .ofList (encode bytes)

/-- The value of a byte that is the code of a digit of either case. -/
def value? (b : UInt8) : Option UInt8 :=
  if 48 ≤ b && b ≤ 57 then some (b - 48)
  else if 97 ≤ b && b ≤ 102 then some (b - 87)
  else if 65 ≤ b && b ≤ 70 then some (b - 55)
  else none

/-- Why a text is no hexadecimal form of bytes. -/
inductive Error where
  | oddLength
  | invalidCharacter (byte : UInt8) (index : Nat)
deriving DecidableEq, Repr

/-- Reads pairs of digits; `index` is the place of the first. -/
def decodePairs (index : Nat) : List UInt8 → Except Error (List UInt8)
  | hi :: lo :: rest =>
    match value? hi, value? lo with
    | none, _        => .error (.invalidCharacter hi index)
    | some _, none   => .error (.invalidCharacter lo (index + 1))
    | some h, some l => (decodePairs (index + 2) rest).map ((h * 16 + l) :: ·)
  | _ => .ok []

/-- Reads the bytes of a hexadecimal text. A text of odd length is refused before its first digit
is looked at. -/
def decode (digits : List UInt8) : Except Error (List UInt8) :=
  if digits.length % 2 = 1 then .error .oddLength else decodePairs 0 digits

theorem length_encode (bytes : List UInt8) : (encode bytes).length = 2 * bytes.length := by
  induction bytes with
  | nil => rfl
  | cons b bytes ih =>
    simp only [encode, List.flatMap_cons, List.length_append, List.length_cons] at ih ⊢
    simp only [ih, List.length_nil]
    omega

end Depot.Hex
