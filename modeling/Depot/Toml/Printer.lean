import Depot.Json.Printer
/-!
# Writing TOML

A document is written table by table: first the lines of a table, then its sub-tables, depth
first, each under a header with its whole path. Objects are tables wherever they can be, and
non-empty arrays of objects are arrays of tables; only inside other arrays they are written in
line. Of an array with more than one item every item stands on a line of its own.
-/

namespace Depot.Toml

open Json

/-! ### Strings -/

/-- A character that no string can hold unescaped. -/
def isControl (c : Char) : Bool := (c.toNat < 0x20 && c ≠ '\t') || c.toNat = 0x7f

/-- Whether a text holds three quotes `q` in a row. -/
def hasTriple (q : Char) : List Char → Bool
  | a :: b :: c :: cs => (a = q && b = q && c = q) || hasTriple q (b :: c :: cs)
  | _                 => false

/-- How a string is written. -/
inductive Style where
  | basic
  | literal
  | multiLineBasic
  | multiLineLiteral
  /-- In double quotes, with escapes. -/
  | escaped
deriving DecidableEq

/-- The first style that needs no escape but the one for a tab. -/
def style (cs : List Char) : Style :=
  let plain := cs.all fun c => !isControl c
  let plainLines := cs.all fun c => !isControl c || c = '\n'
  if plain && !cs.contains '"' && !cs.contains '\\' then .basic
  else if plain && !cs.contains '\'' then .literal
  else if plainLines && !cs.contains '\\' && !hasTriple '"' cs then .multiLineBasic
  else if plainLines && !hasTriple '\'' cs then .multiLineLiteral
  else .escaped

/-- The escape of a character by its code, four capital digits. -/
def codeEscape (c : Char) : List Char :=
  let ds := (Nat.toDigits 16 c.toNat).map Char.toUpper
  '\\' :: 'u' :: (List.replicate (4 - ds.length) '0' ++ ds)

/-- Escapes a text inside double quotes. In a multi-line string a newline and the first two quotes
of a row stand for themselves; `row` counts the quotes just before. -/
def escapeText (multiLine : Bool) (row : Nat) : List Char → List Char
  | []      => []
  | c :: cs =>
    if c = '"' then
      if multiLine && row < 2 then '"' :: escapeText multiLine (row + 1) cs
      else '\\' :: '"' :: escapeText multiLine 0 cs
    else
      let e :=
        if c = '\\' then ['\\', '\\']
        else if c = '\x08' then ['\\', 'b']
        else if c = '\t' then ['\\', 't']
        else if c = '\x0c' then ['\\', 'f']
        else if c = '\r' then ['\\', 'r']
        else if c = '\n' then (if multiLine then ['\n'] else ['\\', 'n'])
        else if isControl c then codeEscape c
        else [c]
      e ++ escapeText multiLine 0 cs

/-- Puts a text between delimiters; a text with line breaks begins on a new line. -/
def delimit (delimiter : List Char) (breaks : Bool) (body : List Char) : List Char :=
  delimiter ++ ((if breaks then ['\n'] else []) ++ (body ++ delimiter))

/-- A string value. -/
def writeString (s : String) : List Char :=
  let cs := s.toList
  let breaks := cs.contains '\n'
  match style cs with
  | .basic            => delimit ['"'] false (escapeText false 0 cs)
  | .literal          => delimit ['\''] false cs
  | .multiLineBasic   => delimit ['"', '"', '"'] breaks (escapeText true 0 cs)
  | .multiLineLiteral => delimit ['\'', '\'', '\''] breaks cs
  | .escaped          =>
    if breaks then delimit ['"', '"', '"'] true (escapeText true 0 cs)
    else delimit ['"'] false (escapeText false 0 cs)

/-- A character of a bare key. -/
def isBare (c : Char) : Bool := c.isAlphanum || c = '-' || c = '_'

/-- A key: bare if it can be, else a string on one line. -/
def writeKey (key : String) : List Char :=
  let cs := key.toList
  if cs ≠ [] && cs.all isBare then
    cs
  else
    match style cs with
    | .basic   => delimit ['"'] false (escapeText false 0 cs)
    | .literal => delimit ['\''] false cs
    | _        => delimit ['"'] false (escapeText false 0 cs)

/-- The keys of a path, with dots between. -/
def writePath (path : List String) : List Char :=
  ['.'].intercalate (path.map writeKey)

/-! ### Values -/

/-- Floats are always written positionally. -/
def floatFormat : FloatFormat := ⟨fun _ => true⟩

/-- A number, if TOML has it: its integers have 63 bits and a sign. -/
def writeNumber? : Number → Option (List Char)
  | .int n   => if n.val < 0x8000000000000000 then some (Number.writeInt n.val) else none
  | .float x => some (floatFormat.write x)

mutual

/-- A value on the right of a key or inside an array; null has no form. -/
def writeValue? : Value → Option (List Char)
  | .null            => none
  | .bool true       => some "true".toList
  | .bool false      => some "false".toList
  | .number n        => writeNumber? n
  | .string s        => some (writeString s)
  | .array []        => some ['[', ']']
  | .array [v]       => (writeValue? v).map fun t => '[' :: (t ++ [']'])
  | .array (v :: vs) => do
    let first ← writeValue? v
    let rest ← writeItems? vs
    return '[' :: ("\n    ".toList ++ (first ++ ',' :: (rest ++ ['\n', ']'])))
  | .object []       => some ['\x7b', '\x7d']
  | .object ((k, v) :: ms) => do
    let first ← writeValue? v
    let rest ← writeMembers? ms
    return '\x7b' :: ' ' :: (writeKey k ++ (" = ".toList ++ (first ++ (rest ++ [' ', '\x7d']))))

/-- Further items of an array, each on its line with a comma. -/
def writeItems? : List Value → Option (List Char)
  | []      => some []
  | v :: vs => do
    let first ← writeValue? v
    let rest ← writeItems? vs
    return "\n    ".toList ++ (first ++ ',' :: rest)

/-- Further members of an object in line, each after a comma. -/
def writeMembers? : List (String × Value) → Option (List Char)
  | []           => some []
  | (k, v) :: ms => do
    let first ← writeValue? v
    let rest ← writeMembers? ms
    return ',' :: ' ' :: (writeKey k ++ (" = ".toList ++ (first ++ rest)))

end

/-! ### Tables -/

/-- Whether a value is an object. -/
def isObject : Value → Bool
  | .object _ => true
  | _         => false

/-- Whether a value is written as a table or as an array of tables. -/
def isTables : Value → Bool
  | .object _        => true
  | .array (v :: vs) => (v :: vs).all isObject
  | _                => false

/-- The lines of a table: its members that are not tables. -/
def writeLines? : List (String × Value) → Option (List Char)
  | []           => some []
  | (k, v) :: ms => do
    let rest ← writeLines? ms
    if isTables v then
      return rest
    else
      let text ← writeValue? v
      return writeKey k ++ (" = ".toList ++ (text ++ '\n' :: rest))

/-- A piece of a document: the lines of a table, under a header if it has one. -/
structure Piece where
  /-- The header, without the line break. -/
  header : Option (List Char)
  lines : List Char

/-- The header of a table. -/
def tableHeader (path : List String) : List Char := '[' :: (writePath path ++ [']'])

/-- The header of an element of an array of tables. -/
def elementHeader (path : List String) : List Char := '[' :: '[' :: (writePath path ++ [']', ']'])

mutual

/-- The pieces of a value that is a table or an array of tables; none for any other. A table gets a
header if it has lines of its own or nothing at all. -/
def pieces? (path : List String) : Value → Option (List Piece)
  | .object ms => do
    let lines ← writeLines? ms
    let rest ← memberPieces? path ms
    let visible := lines ≠ [] ∨ ms = []
    return ⟨if visible then some (tableHeader path) else none, lines⟩ :: rest
  | .array vs  => if isTables (.array vs) then elementPieces? path vs else some []
  | _          => some []

/-- The pieces of the sub-tables among some members. -/
def memberPieces? (path : List String) : List (String × Value) → Option (List Piece)
  | []           => some []
  | (k, v) :: ms => do
    let first ← pieces? (path ++ [k]) v
    let rest ← memberPieces? path ms
    return first ++ rest

/-- The pieces of the elements of an array of tables, each under its header. -/
def elementPieces? (path : List String) : List Value → Option (List Piece)
  | []               => some []
  | .object ms :: vs => do
    let lines ← writeLines? ms
    let inner ← memberPieces? path ms
    let rest ← elementPieces? path vs
    return ⟨some (elementHeader path), lines⟩ :: (inner ++ rest)
  | _ :: vs          => elementPieces? path vs

end

/-- Joins pieces; every header but one at the start of the document follows an empty line. -/
def joinPieces (start : Bool) : List Piece → List Char
  | []      => []
  | p :: ps =>
    match p.header with
    | none   => p.lines ++ joinPieces (start && p.lines = []) ps
    | some h =>
      (if start then [] else ['\n']) ++ (h ++ '\n' :: (p.lines ++ joinPieces false ps))

/-- The document of an object, if it can be written. -/
def text? (o : Object) : Option String := do
  let lines ← writeLines? o
  let rest ← memberPieces? [] o
  return .ofList (joinPieces true (⟨none, lines⟩ :: rest))

/-! ### Nulls -/

mutual

/-- Drops the members that are null, at every depth. -/
def dropNulls : Value → Value
  | .object ms => .object (dropNullMembers ms)
  | .array vs  => .array (dropNullItems vs)
  | v          => v

/-- `dropNulls` on each item; an item that is null stays. -/
def dropNullItems : List Value → List Value
  | []      => []
  | v :: vs => dropNulls v :: dropNullItems vs

/-- Drops the members that are null. -/
def dropNullMembers : List (String × Value) → List (String × Value)
  | []               => []
  | (_, .null) :: ms => dropNullMembers ms
  | (k, v) :: ms     => (k, dropNulls v) :: dropNullMembers ms

end

/-- An object without the members that are null. -/
def withoutNulls (o : Object) : Object := dropNullMembers o

end Depot.Toml
