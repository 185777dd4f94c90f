import Depot.Json.Token
import Depot.Json.Value
/-!
# TOML strings, numbers and dates

Readers for what can stand on the right of a key, arrays and tables apart. Each takes the rest of a
text and gives what it has read with what follows it. Line breaks are single line feeds here.
-/

namespace Depot.Toml

open Json

/-- A reader: what was read, and the rest of the text. -/
abbrev Reader (α : Type) := List Char → Option (α × List Char)

/-- Blanks inside a line. -/
def isBlank (c : Char) : Bool := c = ' ' || c = '\t'

/-- A character that strings and comments may hold. -/
def isText (c : Char) : Bool := c = '\t' || (0x20 ≤ c.toNat && c.toNat ≠ 0x7f)

/-- Turns pairs of carriage return and line feed into line feeds; a carriage return alone is
refused. -/
def lineFeeds? : List Char → Option (List Char)
  | []                 => some []
  | '\r' :: '\n' :: cs => (lineFeeds? cs).map ('\n' :: ·)
  | '\r' :: _          => none
  | c :: cs            => (lineFeeds? cs).map (c :: ·)

/-! ### Strings -/

/-- The character with a code, if there is one. -/
def scalar? (n : Nat) : Option Char :=
  if n < 0xd800 ∨ (0xe000 ≤ n ∧ n < 0x110000) then some (Char.ofNat n) else none

/-- The character given by hexadecimal digits. -/
def ofHexDigits? (ds : List Char) : Option Char := do
  let values ← ds.mapM Token.hexValue?
  scalar? (values.foldl (fun n d => n * 16 + d) 0)

/-- The character of an escape by a letter. -/
def letterEscape? (c : Char) : Option Char :=
  if c = '"' ∨ c = '\\' then some c
  else if c = 'b' then some '\x08'
  else if c = 'f' then some '\x0c'
  else if c = 'n' then some '\n'
  else if c = 'r' then some '\r'
  else if c = 't' then some '\t'
  else none

/-- What a backslash at the end of a line does to the blanks after it. -/
inductive Trimming where
  | none
  /-- A backslash and blanks: the line must end here. -/
  | toLineEnd
  /-- The line has ended: blanks and further line breaks are dropped. -/
  | blanks
deriving DecidableEq

/-- The rest of a string in double quotes, up to its end. In a string of several lines up to two
quotes may stand before the closing three. -/
def quoted? (multiLine : Bool) (trim : Trimming) : Reader (List Char)
  | []      => none
  | c :: cs =>
    if trim = .toLineEnd then
      if isBlank c then quoted? multiLine .toLineEnd cs
      else if c = '\n' then quoted? multiLine .blanks cs
      else none
    else if trim = .blanks ∧ (isBlank c ∨ c = '\n') then
      quoted? multiLine .blanks cs
    else if c = '"' then
      if multiLine then
        match cs with
        | '"' :: '"' :: '"' :: '"' :: rest => some (['"', '"'], rest)
        | '"' :: '"' :: '"' :: rest        => some (['"'], rest)
        | '"' :: '"' :: rest               => some ([], rest)
        | _                                => prepend '"' (quoted? multiLine .none cs)
      else
        some ([], cs)
    else if c = '\\' then
      match cs with
      | 'u' :: a :: b :: c :: d :: cs => do
        prepend (← ofHexDigits? [a, b, c, d]) (quoted? multiLine .none cs)
      | 'U' :: a :: b :: c :: d :: e :: f :: g :: h :: cs => do
        prepend (← ofHexDigits? [a, b, c, d, e, f, g, h]) (quoted? multiLine .none cs)
      | e :: cs =>
        if multiLine ∧ isBlank e then quoted? multiLine .toLineEnd cs
        else if multiLine ∧ e = '\n' then quoted? multiLine .blanks cs
        else do prepend (← letterEscape? e) (quoted? multiLine .none cs)
      | [] => none
    else if isText c ∨ (multiLine ∧ c = '\n') then
      prepend c (quoted? multiLine .none cs)
    else
      none
where
  /-- Puts a character before what has been read. -/
  prepend (c : Char) (read : Option (List Char × List Char)) : Option (List Char × List Char) :=
    read.map fun (cs, rest) => (c :: cs, rest)

/-- The rest of a string in single quotes, up to its end. -/
def literal? (multiLine : Bool) : Reader (List Char)
  | []      => none
  | c :: cs =>
    if c = '\'' then
      if multiLine then
        match cs with
        | '\'' :: '\'' :: '\'' :: '\'' :: rest => some (['\'', '\''], rest)
        | '\'' :: '\'' :: '\'' :: rest         => some (['\''], rest)
        | '\'' :: '\'' :: rest                 => some ([], rest)
        | _                                    => quoted?.prepend c (literal? multiLine cs)
      else
        some ([], cs)
    else if isText c ∨ (multiLine ∧ c = '\n') then
      quoted?.prepend c (literal? multiLine cs)
    else
      none

/-- Drops the line break right after the opening of a string of several lines. -/
def dropFirstBreak : List Char → List Char
  | '\n' :: cs => cs
  | cs         => cs

/-- A string on one line. -/
def lineString? : Reader String
  | '"' :: cs  => (quoted? false .none cs).map fun (s, rest) => (.ofList s, rest)
  | '\'' :: cs => (literal? false cs).map fun (s, rest) => (.ofList s, rest)
  | _          => none

/-- A string of any kind. -/
def string? : Reader String
  | '"' :: '"' :: '"' :: cs    =>
    (quoted? true .none (dropFirstBreak cs)).map fun (s, rest) => (.ofList s, rest)
  | '\'' :: '\'' :: '\'' :: cs =>
    (literal? true (dropFirstBreak cs)).map fun (s, rest) => (.ofList s, rest)
  | cs                         => lineString? cs

/-! ### Numbers -/

/-- Further digits; an underscore may stand between two. -/
def moreDigits? (ok : Char → Bool) : Reader (List Char)
  | []      => some ([], [])
  | c :: cs =>
    if c = '_' then
      match cs with
      | d :: cs => if ok d then quoted?.prepend d (moreDigits? ok cs) else none
      | []      => none
    else if ok c then
      quoted?.prepend c (moreDigits? ok cs)
    else
      some ([], c :: cs)

/-- One or more digits. -/
def digits? (ok : Char → Bool) : Reader (List Char)
  | c :: cs => if ok c then quoted?.prepend c (moreDigits? ok cs) else none
  | []      => none

/-- An optional sign: whether it is a minus, and the rest. -/
def sign : List Char → Bool × List Char
  | '-' :: cs => (true, cs)
  | '+' :: cs => (false, cs)
  | cs        => (false, cs)

/-- A zero alone, or digits that begin with another one. -/
def whole? : Reader (List Char)
  | '0' :: cs => some (['0'], cs)
  | cs        => digits? Char.isDigit cs

/-- An integer of 64 bits with sign. -/
def signed? (n : Int) : Option Value :=
  if n < 0x8000000000000000 then (Number.ofInt? n).map .number else none

/-- The value of digits of any base up to sixteen. -/
def ofBase (base : Nat) (ds : List Char) : Nat :=
  ds.foldl (fun n d => n * base + (Token.hexValue? d).getD 0) 0

/-- An integer: decimal with an optional sign, or with the mark of another base. -/
def integer? : Reader Value
  | '0' :: 'x' :: cs => based 16 (fun c => (Token.hexValue? c).isSome) cs
  | '0' :: 'o' :: cs => based 8 (fun c => '0' ≤ c ∧ c ≤ '7') cs
  | '0' :: 'b' :: cs => based 2 (fun c => c = '0' ∨ c = '1') cs
  | cs => do
    let (minus, cs) := sign cs
    let (ds, rest) ← whole? cs
    let n : Int := ofBase 10 ds
    return (← signed? (if minus then -n else n), rest)
where
  /-- Digits of a base. -/
  based (base : Nat) (ok : Char → Bool) (cs : List Char) : Option (Value × List Char) := do
    let (ds, rest) ← digits? ok cs
    return (← signed? (ofBase base ds), rest)

/-- The float nearest to `digits * 10 ^ e`. Where the result is out of range anyway, the power is
not computed. -/
def nearest (digits : Nat) (e : Int) : Float :=
  let size := (Nat.toDigits 10 digits).length + e
  if digits = 0 ∨ size < -400 then 0.0
  else if 400 < size then 1.0 / 0.0
  else .ofScientific digits (e < 0) e.natAbs

/-- A float as a value. One that is too large is refused if it is positive; a negative one becomes
infinite, and what is not finite has no value but null. -/
def floatValue? (minus : Bool) (f : Float) : Option Value :=
  if f.isInf then
    if minus then some .null else none
  else
    some (.number (.float (.ofFloat (if minus then -f else f))))

/-- The exponent of a float, if its letter comes next. -/
def power? : Reader (Option Int)
  | [] => some (none, [])
  | c :: cs =>
    if c = 'e' ∨ c = 'E' then do
      let (minus, cs) := sign cs
      let (ds, rest) ← digits? Char.isDigit cs
      let n : Int := ofBase 10 ds
      return (some (if minus then -n else n), rest)
    else
      some (none, c :: cs)

/-- A float with a fraction or an exponent. -/
def decimal? (cs : List Char) : Option (Value × List Char) := do
  let (minus, cs) := sign cs
  let (ds, cs) ← whole? cs
  let (fraction, cs) ←
    match cs with
    | '.' :: cs => (digits? Char.isDigit cs).map fun (ds, rest) => (some ds, rest)
    | cs        => some (none, cs)
  let (power, rest) ← power? cs
  if fraction = none ∧ power = none then
    none
  else
    let fraction := fraction.getD []
    let value := nearest (ofBase 10 (ds ++ fraction)) (power.getD 0 - fraction.length)
    return (← floatValue? minus value, rest)

/-- The words for what is not a finite number; they have no value but null. -/
def special? (cs : List Char) : Option (Value × List Char) :=
  match (sign cs).2 with
  | 'i' :: 'n' :: 'f' :: rest => some (.null, rest)
  | 'n' :: 'a' :: 'n' :: rest => some (.null, rest)
  | _                         => none

/-! ### Dates -/

/-- A number of two digits, within bounds. -/
def twoDigits? (low high : Nat) : Reader Nat
  | a :: b :: cs =>
    if a.isDigit ∧ b.isDigit then
      let n := ofBase 10 [a, b]
      if low ≤ n ∧ n ≤ high then some (n, cs) else none
    else
      none
  | _ => none

/-- One given character. -/
def mark? (c : Char) : Reader Unit
  | d :: cs => if d = c then some ((), cs) else none
  | []      => none

/-- Days in a month. -/
def daysIn (year month : Nat) : Nat :=
  if month = 2 then
    if year % 4 = 0 ∧ (year % 100 ≠ 0 ∨ year % 400 = 0) then 29 else 28
  else if month = 4 ∨ month = 6 ∨ month = 9 ∨ month = 11 then 30
  else 31

/-- A number in at least `width` digits. -/
def padded (width n : Nat) : List Char :=
  let ds := Nat.toDigits 10 n
  List.replicate (width - ds.length) '0' ++ ds

/-- A date, as it is written again. -/
def date? (cs : List Char) : Option (List Char × List Char) := do
  let ys := cs.take 4
  if ys.length = 4 ∧ ys.all Char.isDigit then
    let year := ofBase 10 ys
    let ((), cs) ← mark? '-' (cs.drop 4)
    let (month, cs) ← twoDigits? 1 12 cs
    let ((), cs) ← mark? '-' cs
    let (day, cs) ← twoDigits? 1 31 cs
    if day ≤ daysIn year month then
      some (padded 4 year ++ '-' :: (padded 2 month ++ '-' :: padded 2 day), cs)
    else
      none
  else
    none

/-- A fraction of a second, to nine digits and without zeros at the end. -/
def fraction? : Reader (List Char)
  | '.' :: cs =>
    let ds := cs.takeWhile Char.isDigit
    if ds = [] then
      none
    else
      let shown := ((ds.take 9).reverse.dropWhile (· = '0')).reverse
      some (if shown = [] then [] else '.' :: shown, cs.dropWhile Char.isDigit)
  | cs => some ([], cs)

/-- A time of day, as it is written again. -/
def time? (cs : List Char) : Option (List Char × List Char) := do
  let (hour, cs) ← twoDigits? 0 23 cs
  let ((), cs) ← mark? ':' cs
  let (minute, cs) ← twoDigits? 0 59 cs
  let ((), cs) ← mark? ':' cs
  let (second, cs) ← twoDigits? 0 60 cs
  let (fraction, cs) ← fraction? cs
  return (padded 2 hour ++ ':' :: (padded 2 minute ++ ':' :: (padded 2 second ++ fraction)), cs)

/-- The offset of a time, if one comes next, as it is written again. -/
def offset? : Reader (List Char)
  | [] => some ([], [])
  | c :: cs =>
    if c = 'Z' ∨ c = 'z' then
      some (['Z'], cs)
    else if c = '+' ∨ c = '-' then do
      let (hour, cs) ← twoDigits? 0 23 cs
      let ((), cs) ← mark? ':' cs
      let (minute, cs) ← twoDigits? 0 59 cs
      let s := if hour = 0 ∧ minute = 0 then '+' else c
      return (s :: (padded 2 hour ++ ':' :: padded 2 minute), cs)
    else
      some ([], c :: cs)

/-- A date with a time, a date alone, or a time alone. -/
def moment? (cs : List Char) : Option (List Char × List Char) :=
  match date? cs with
  | none => time? cs
  | some (date, rest) =>
    match rest with
    | c :: cs =>
      if c = 'T' ∨ c = 't' ∨ c = ' ' then
        match time? cs with
        | some (time, cs) => (offset? cs).map fun (o, rest) => (date ++ 'T' :: (time ++ o), rest)
        | none            => some (date, rest)
      else
        some (date, rest)
    | [] => some (date, [])

/-- The key of the object that stands for a date or a time. -/
def dateKey : String := "$__toml_private_datetime"

/-- A date or a time: an object that holds its text. -/
def dateTime? (cs : List Char) : Option (Value × List Char) :=
  (moment? cs).map fun (text, rest) => (.object [(dateKey, .string (.ofList text))], rest)

/-- A value that is neither an array nor a table. -/
def scalarValue? : Reader Value
  | []      => none
  | c :: cs =>
    if c = '"' ∨ c = '\'' then
      (string? (c :: cs)).map fun (s, rest) => (.string s, rest)
    else if c = '+' ∨ c = '-' ∨ c.isDigit then
      (dateTime? (c :: cs)).or ((decimal? (c :: cs)).or ((special? (c :: cs)).or
        (integer? (c :: cs))))
    else
      match c :: cs with
      | 't' :: 'r' :: 'u' :: 'e' :: rest        => some (.bool true, rest)
      | 'f' :: 'a' :: 'l' :: 's' :: 'e' :: rest => some (.bool false, rest)
      | cs                                      => special? cs

end Depot.Toml
