import Depot.Json.Token
import Depot.Json.Value
import Depot.Text.Basic
/-!
# Reading JSON

A machine reads the tokens of a text from left to right. Its stack holds the arrays and objects
that are open, innermost first, with the items and members read so far. Containers may be open in
one another up to a fixed depth.
-/

namespace Depot.Json

/-- A container that is being read. -/
inductive Frame where
  /-- An array; its items so far, last first. -/
  | array (items : List Value)
  /-- An object whose member under `key` comes next; its members so far, last first. -/
  | object (members : List (String × Value)) (key : String)

/-- What a text has brought so far, and what may come next. -/
inductive Reading where
  /-- A value must come. -/
  | value (stack : List Frame)
  /-- An array has been opened: a value or its end must come. -/
  | firstItem (stack : List Frame)
  /-- An object has been opened: a key or its end must come. -/
  | firstKey (stack : List Frame)
  /-- A further key must come. -/
  | key (members : List (String × Value)) (stack : List Frame)
  /-- A colon must come. -/
  | colon (members : List (String × Value)) (key : String) (stack : List Frame)
  /-- A value has ended: a comma or the end of the container must come, or the end of the text. -/
  | after (v : Value) (stack : List Frame)

namespace Reading

/-- How many containers may be open at a time. -/
def maxDepth : Nat := 127

/-- Takes the first token of a value. -/
def beginValue (stack : List Frame) : Token → Option Reading
  | .null       => some (.after .null stack)
  | .bool b     => some (.after (.bool b) stack)
  | .number n   => some (.after (.number n) stack)
  | .string s   => some (.after (.string s) stack)
  | .openArray  => if stack.length < maxDepth then some (.firstItem stack) else none
  | .openObject => if stack.length < maxDepth then some (.firstKey stack) else none
  | _           => none

/-- Takes one token. -/
def step : Reading → Token → Option Reading
  | .value stack, t                                  => beginValue stack t
  | .firstItem stack, .closeArray                    => some (.after (.array []) stack)
  | .firstItem stack, t                              => beginValue (.array [] :: stack) t
  | .firstKey stack, .closeObject                    => some (.after (.object []) stack)
  | .firstKey stack, .string k                       => some (.colon [] k stack)
  | .key ms stack, .string k                         => some (.colon ms k stack)
  | .colon ms k stack, .colon                        => some (.value (.object ms k :: stack))
  | .after v (.array vs :: stack), .comma            => some (.value (.array (v :: vs) :: stack))
  | .after v (.array vs :: stack), .closeArray       =>
    some (.after (.array (v :: vs).reverse) stack)
  | .after v (.object ms k :: stack), .comma         => some (.key ((k, v) :: ms) stack)
  | .after v (.object ms k :: stack), .closeObject   =>
    some (.after (.object ((k, v) :: ms).reverse) stack)
  | _, _                                             => none

/-- The value that has been read, if the text may end here. -/
def result? : Reading → Option Value
  | .after v [] => some v
  | _           => none

end Reading

namespace Value

/-- The value of a list of tokens, its members as they stand in the text. -/
def ofTokens? (ts : List Token) : Option Value := do
  (← ts.foldlM Reading.step (.value [])).result?

/-- The value of a text, its members as they stand there. -/
def verbatim? (s : String) : Option Value := do
  ofTokens? (← Token.scan? s.toList)

/-- The value of a text. -/
def ofText? (s : String) : Option Value := (verbatim? s).map sorted

/-- The value of a text given as bytes, its members as they stand there. -/
def verbatimBytes? (bytes : Bytes) : Option Value := do
  verbatim? (← Text.ofBytes? bytes)

end Value

/-- The object of a text given as bytes. -/
def Object.ofBytes? (bytes : Bytes) : Option Object := do
  (← Value.verbatimBytes? bytes).sorted.object?

end Depot.Json
