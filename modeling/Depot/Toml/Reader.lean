import Depot.Toml.Scalar
import Depot.Toml.Table
/-!
# Reading TOML

A document is read line by line into a table. Arrays and tables written in line may be nested up to
a fixed depth, and so may the parts of a dotted key. Readers that call each other take the number
of steps they may still make. Of two steps in a row at least one takes a character, so twice the
length of the text is enough of them.
-/

namespace Depot.Toml

open Json

/-- Arrays, tables in line, and parts of a key are nested less deep than this. -/
def depthLimit : Nat := 80

/-- Drops blanks inside a line. -/
def skipBlanks (cs : List Char) : List Char := cs.dropWhile isBlank

/-- Drops a comment, if one comes next. -/
def skipComment : List Char → List Char
  | '#' :: cs => cs.dropWhile isText
  | cs        => cs

/-- Drops blanks, line breaks and comments; a comment must end its line. -/
def skipLines? : Nat → List Char → Option (List Char)
  | 0, _         => none
  | fuel + 1, cs =>
    match skipBlanks cs with
    | '\n' :: cs => skipLines? fuel cs
    | '#' :: cs  =>
      match cs.dropWhile isText with
      | '\n' :: cs => skipLines? fuel cs
      | _          => none
    | cs         => some cs

/-- One part of a key: bare, or a string on one line. -/
def keyPart? (cs : List Char) : Option (String × List Char) :=
  let bare := cs.takeWhile fun c => c.isAlphanum || c = '-' || c = '_'
  if bare ≠ [] then
    some (.ofList bare, cs.drop bare.length)
  else
    match cs with
    | '"' :: '"' :: '"' :: _    => none
    | '\'' :: '\'' :: '\'' :: _ => none
    | cs                        => lineString? cs

/-- A key: parts with dots between, and blanks around each. -/
def key? : Nat → Reader (List String)
  | 0, _         => none
  | fuel + 1, cs => do
    let (part, rest) ← keyPart? (skipBlanks cs)
    match skipBlanks rest with
    | '.' :: cs =>
      let (parts, rest) ← key? fuel cs
      return (part :: parts, rest)
    | rest      => return ([part], rest)

/-- A key as the path to a table and the part that is set there. -/
def keyPath? (fuel : Nat) (cs : List Char) : Option ((List String × String) × List Char) := do
  let (parts, rest) ← key? fuel cs
  if parts.length < depthLimit then
    return ((parts.dropLast, parts.getLastD ""), rest)
  else
    none

mutual

/-- A value, inside `depth` arrays and tables in line. -/
def value? : (fuel depth : Nat) → Reader Value
  | 0, _, _                       => none
  | fuel + 1, depth, '[' :: cs    =>
    if depth + 1 < depthLimit then do
      let cs ← skipLines? (fuel + 1) cs
      match cs with
      | ']' :: rest => return (.array [], rest)
      | cs          =>
        let (vs, rest) ← items? fuel (depth + 1) cs
        return (.array vs, rest)
    else
      none
  | fuel + 1, depth, '\x7b' :: cs =>
    if depth + 1 < depthLimit then
      match skipBlanks cs with
      | '\x7d' :: rest => some (.object [], rest)
      | cs             => do
        let (t, rest) ← members? fuel (depth + 1) (.new .defined) cs
        return (t.node.toValue, rest)
    else
      none
  | _, _, cs                      => scalarValue? cs

/-- The items of an array from one on, up to its end. A comma may follow the last one. -/
def items? : (fuel depth : Nat) → Reader (List Value)
  | 0, _, _             => none
  | fuel + 1, depth, cs => do
    let (v, rest) ← value? fuel depth cs
    let rest ← skipLines? (fuel + 1) rest
    match rest with
    | ']' :: rest => return ([v], rest)
    | ',' :: rest =>
      let rest ← skipLines? (fuel + 1) rest
      match rest with
      | ']' :: rest => return ([v], rest)
      | rest        =>
        let (vs, rest) ← items? fuel depth rest
        return (v :: vs, rest)
    | _           => none

/-- The members of a table in line from one on, up to its end. -/
def members? : (fuel depth : Nat) → Table → Reader Table
  | 0, _, _, _             => none
  | fuel + 1, depth, t, cs => do
    let ((path, key), rest) ← keyPath? (fuel + 1) cs
    let ((), rest) ← mark? '=' rest
    let (v, rest) ← value? fuel depth (skipBlanks rest)
    let t ← t.set? path key v
    match skipBlanks rest with
    | '\x7d' :: rest => return (t, rest)
    | ',' :: rest    => members? fuel depth t rest
    | _              => none

end

/-- The end of a line, after blanks and a comment. -/
def lineEnd? (cs : List Char) : Option (List Char) :=
  match skipComment (skipBlanks cs) with
  | []         => some []
  | '\n' :: cs => some cs
  | _          => none

/-- Reads the lines of a document into a table. `header` is the path of the table that the last
header opened. -/
def lines? : Nat → (header : List String) → Table → List Char → Option Table
  | 0, _, _, _              => none
  | fuel + 1, header, t, cs =>
    match skipBlanks cs with
    | []               => some t
    | '\n' :: cs       => lines? fuel header t cs
    | '#' :: cs        => do lines? fuel header t (← lineEnd? ('#' :: cs))
    | '[' :: '[' :: cs => do
      let ((path, key), rest) ← keyPath? (fuel + 1) cs
      let ((), rest) ← mark? ']' rest
      let ((), rest) ← mark? ']' rest
      lines? fuel (path ++ [key]) (← t.append? path key) (← lineEnd? rest)
    | '[' :: cs        => do
      let ((path, key), rest) ← keyPath? (fuel + 1) cs
      let ((), rest) ← mark? ']' rest
      lines? fuel (path ++ [key]) (← t.define? path key) (← lineEnd? rest)
    | cs               => do
      let ((path, key), rest) ← keyPath? (fuel + 1) cs
      let ((), rest) ← mark? '=' rest
      let (v, rest) ← value? (fuel + 1) 0 (skipBlanks rest)
      lines? fuel header (← t.setBelow? header path key v) (← lineEnd? rest)

/-- Drops a byte order mark. -/
def skipMark : List Char → List Char
  | c :: cs => if c.toNat = 0xfeff then cs else c :: cs
  | []      => []

/-- The value of a document. -/
def ofText? (s : String) : Option Value := do
  let cs ← lineFeeds? (skipMark s.toList)
  let t ← lines? (2 * cs.length + 2) [] (.new .defined) cs
  return t.node.toValue

end Depot.Toml
