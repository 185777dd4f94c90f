import Depot.Text.Hex
import Depot.Text.Printable
/-!
# Quoted text

Text in quotes as it stands in messages: the quote and the backslash escaped, line feed, carriage
return, tab and NUL by a letter, any other unprintable character by its code point in braces.
-/

namespace Depot

namespace Text

/-- The escape of a character by its code point. -/
def codePointEscape (c : Char) : List Char :=
  '\\' :: 'u' :: '\x7b' :: (Nat.toDigits 16 c.toNat ++ ['\x7d'])

/-- One character inside quotes `q`. -/
def quoteChar (q c : Char) : List Char :=
  if c = q then ['\\', q]
  else if c = '\\' then ['\\', '\\']
  else if c = '\n' then ['\\', 'n']
  else if c = '\r' then ['\\', 'r']
  else if c = '\t' then ['\\', 't']
  else if c = '\x00' then ['\\', '0']
  else if isPrintable c then [c]
  else codePointEscape c

/-- A text in double quotes. -/
def quote (s : String) : String :=
  .ofList ('"' :: (s.toList.flatMap (quoteChar '"') ++ ['"']))

/-- A character in single quotes. -/
def quoteSingle (c : Char) : String :=
  .ofList ('\'' :: (quoteChar '\'' c ++ ['\'']))

/-- A list of texts, each in double quotes. -/
def quoteList (texts : List String) : String :=
  "[" ++ ", ".intercalate (texts.map quote) ++ "]"

/-- An optional text, by the word for its presence. -/
def quoteOption : Option String → String
  | none   => "None"
  | some s => "Some(" ++ quote s ++ ")"

end Text

/-- The wording of a fault. A byte is shown as the character with its code. -/
def Hex.Error.message : Hex.Error → String
  | .oddLength            => "Odd number of digits"
  | .invalidCharacter b i =>
    s!"Invalid character {Text.quoteSingle (Char.ofNat b.toNat)} at position {i}"

end Depot
