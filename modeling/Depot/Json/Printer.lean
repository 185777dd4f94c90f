import Depot.Json.Value
import Depot.Text.Hex
/-!
# Writing JSON

The compact form has no blanks. The indented form puts every item and member on a line of its own,
two blanks deeper than the line that opens it; an empty array or object stays on one line.
-/

namespace Depot.Json

/-- One character inside a string: the quote, the backslash and the control characters are
escaped, by a letter where there is one. -/
def escapeChar (c : Char) : List Char :=
  if c = '"' then ['\\', '"']
  else if c = '\\' then ['\\', '\\']
  else if c = '\x08' then ['\\', 'b']
  else if c = '\x0c' then ['\\', 'f']
  else if c = '\n' then ['\\', 'n']
  else if c = '\r' then ['\\', 'r']
  else if c = '\t' then ['\\', 't']
  else if c.toNat < 0x20 then
    ['\\', 'u', '0', '0', Hex.digit (c.toNat / 16).toUInt8, Hex.digit (c.toNat % 16).toUInt8]
  else [c]

/-- A string literal. -/
def writeString (s : String) : List Char :=
  '"' :: (s.toList.flatMap escapeChar ++ ['"'])

namespace Value

mutual

/-- The compact form. -/
def write : Value → List Char
  | .null           => "null".toList
  | .bool true      => "true".toList
  | .bool false     => "false".toList
  | .number n       => n.write
  | .string s       => writeString s
  | .array items    => '[' :: writeItems items
  | .object members => '\x7b' :: writeMembers members

/-- The items of an array after its bracket, with the closing bracket. -/
def writeItems : List Value → List Char
  | []           => [']']
  | [v]          => write v ++ [']']
  | v :: w :: vs => write v ++ ',' :: writeItems (w :: vs)

/-- The members of an object after its brace, with the closing brace. -/
def writeMembers : List (String × Value) → List Char
  | []                => ['\x7d']
  | [(k, v)]          => writeString k ++ ':' :: (write v ++ ['\x7d'])
  | (k, v) :: m :: ms => writeString k ++ ':' :: (write v ++ ',' :: writeMembers (m :: ms))

end

/-- A new line with the given number of blanks. -/
def newLine (indent : Nat) : List Char := '\n' :: List.replicate indent ' '

mutual

/-- The indented form of a value on a line indented by `indent`. -/
def writePretty (indent : Nat) : Value → List Char
  | .array []           => ['[', ']']
  | .array (v :: vs)    =>
    '[' :: (writePrettyItems (indent + 2) (v :: vs) ++ (newLine indent ++ [']']))
  | .object []          => ['\x7b', '\x7d']
  | .object (m :: ms)   =>
    '\x7b' :: (writePrettyMembers (indent + 2) (m :: ms) ++ (newLine indent ++ ['\x7d']))
  | .null               => "null".toList
  | .bool true          => "true".toList
  | .bool false         => "false".toList
  | .number n           => n.write
  | .string s           => writeString s

/-- Each item on its line, with commas between. -/
def writePrettyItems (indent : Nat) : List Value → List Char
  | []           => []
  | [v]          => newLine indent ++ writePretty indent v
  | v :: w :: vs =>
    newLine indent ++ (writePretty indent v ++ ',' :: writePrettyItems indent (w :: vs))

/-- Each member on its line, with commas between. -/
def writePrettyMembers (indent : Nat) : List (String × Value) → List Char
  | []                => []
  | [(k, v)]          =>
    newLine indent ++ (writeString k ++ ':' :: ' ' :: writePretty indent v)
  | (k, v) :: m :: ms =>
    newLine indent ++
      (writeString k ++
        ':' :: ' ' :: (writePretty indent v ++ ',' :: writePrettyMembers indent (m :: ms)))

end

/-- The compact text. -/
def text (v : Value) : String := .ofList v.write

/-- The indented text. -/
def prettyText (v : Value) : String := .ofList (v.writePretty 0)

end Value

end Depot.Json
