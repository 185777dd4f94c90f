import Depot.Json.Number
/-!
# JSON tokens

A text falls into brackets, commas, colons, words, numbers and strings, with blanks between them.
The longest run of characters that may occur in a number is taken as one number.
-/

namespace Depot.Json

/-- A token of a JSON text. -/
inductive Token where
  | openArray
  | closeArray
  | openObject
  | closeObject
  | comma
  | colon
  | null
  | bool (b : Bool)
  | number (n : Number)
  | string (s : String)
deriving DecidableEq

namespace Token

/-- The blanks that may stand between tokens. -/
def isSpace (c : Char) : Bool := c = ' ' || c = '\n' || c = '\t' || c = '\r'

/-- A character that may occur in a number. -/
def isNumeric (c : Char) : Bool :=
  c.isDigit || c = '-' || c = '+' || c = '.' || c = 'e' || c = 'E'

/-! ### Strings -/

/-- A piece of a string: a character, or a 16-bit unit given by an escape. -/
inductive Piece where
  | char (c : Char)
  | unit (n : Nat)

/-- The value of a hexadecimal digit. -/
def hexValue? (c : Char) : Option Nat :=
  let n := c.toNat
  if 48 ≤ n ∧ n ≤ 57 then some (n - 48)
  else if 97 ≤ n ∧ n ≤ 102 then some (n - 87)
  else if 65 ≤ n ∧ n ≤ 70 then some (n - 55)
  else none

/-- The value of four hexadecimal digits. -/
def unit? (a b c d : Char) : Option Nat := do
  let a ← hexValue? a
  let b ← hexValue? b
  let c ← hexValue? c
  let d ← hexValue? d
  return ((a * 16 + b) * 16 + c) * 16 + d

/-- The character of an escape by a letter. -/
def letterEscape? (c : Char) : Option Char :=
  if c = '"' ∨ c = '\\' ∨ c = '/' then some c
  else if c = 'b' then some '\x08'
  else if c = 'f' then some '\x0c'
  else if c = 'n' then some '\n'
  else if c = 'r' then some '\r'
  else if c = 't' then some '\t'
  else none

/-- The pieces of a string up to its closing quote, and what follows it. -/
def pieces? : List Char → Option (List Piece × List Char)
  | []              => none
  | '"' :: cs       => some ([], cs)
  | '\\' :: e :: cs =>
    if e = 'u' then
      match cs with
      | a :: b :: c :: d :: cs => do
        let n ← unit? a b c d
        let (ps, rest) ← pieces? cs
        return (.unit n :: ps, rest)
      | _ => none
    else do
      let c ← letterEscape? e
      let (ps, rest) ← pieces? cs
      return (.char c :: ps, rest)
  | c :: cs         =>
    if c.toNat < 0x20 ∨ c = '\\' then
      none
    else do
      let (ps, rest) ← pieces? cs
      return (.char c :: ps, rest)

/-- Joins pairs of surrogate units; a surrogate without its partner is refused. -/
def join? : List Piece → Option (List Char)
  | []            => some []
  | .char c :: ps => (join? ps).map (c :: ·)
  | .unit n :: ps =>
    if 0xd800 ≤ n ∧ n < 0xdc00 then
      match ps with
      | .unit m :: ps =>
        if 0xdc00 ≤ m ∧ m < 0xe000 then
          (join? ps).map (Char.ofNat (0x10000 + (n - 0xd800) * 0x400 + (m - 0xdc00)) :: ·)
        else
          none
      | _ => none
    else if 0xdc00 ≤ n ∧ n < 0xe000 then
      none
    else
      (join? ps).map (Char.ofNat n :: ·)

/-- The string whose opening quote has been read, and what follows it. -/
def string? (cs : List Char) : Option (String × List Char) := do
  let (ps, rest) ← pieces? cs
  let s ← join? ps
  return (.ofList s, rest)

/-! ### Tokens -/

/-- The token at the front of a text that does not begin with a blank, and what follows it. -/
def next? : List Char → Option (Token × List Char)
  | '[' :: cs                           => some (.openArray, cs)
  | ']' :: cs                           => some (.closeArray, cs)
  | '\x7b' :: cs                        => some (.openObject, cs)
  | '\x7d' :: cs                        => some (.closeObject, cs)
  | ',' :: cs                           => some (.comma, cs)
  | ':' :: cs                           => some (.colon, cs)
  | 'n' :: 'u' :: 'l' :: 'l' :: cs      => some (.null, cs)
  | 't' :: 'r' :: 'u' :: 'e' :: cs      => some (.bool true, cs)
  | 'f' :: 'a' :: 'l' :: 's' :: 'e' :: cs => some (.bool false, cs)
  | '"' :: cs                           => (string? cs).map fun (s, rest) => (.string s, rest)
  | cs                                  => do
    let n ← Number.ofChars? (cs.takeWhile isNumeric)
    return (.number n, cs.dropWhile isNumeric)

/-- Splits a text into at most `fuel` tokens. -/
def scanWith : Nat → List Char → Option (List Token)
  | 0, _         => none
  | fuel + 1, cs =>
    match cs.dropWhile isSpace with
    | [] => some []
    | c :: cs => do
      let (t, rest) ← next? (c :: cs)
      let ts ← scanWith fuel rest
      return t :: ts

/-- Splits a text into tokens. A token takes at least one character, so as many steps as the text
has characters are enough. -/
def scan? (cs : List Char) : Option (List Token) := scanWith (cs.length + 1) cs

end Token

end Depot.Json
