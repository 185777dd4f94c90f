import Depot.Digest.Algorithm
import Depot.Text.Quoted
/-!
# Checksums

A checksum is a digest with its algorithm. Its text is the name of the algorithm, a colon and the
digest in hexadecimal digits; reading ignores the case of both parts.
-/

namespace Depot

/-- A digest of the length its algorithm gives. -/
structure Checksum where
  algorithm : Algorithm
  digest : List UInt8
  length_digest : digest.length = algorithm.digestLength
deriving DecidableEq

namespace Checksum

/-- Why there is no such checksum. -/
inductive Error where
  | invalidHex (reason : Hex.Error)
  | missingPrefix (text : String)
  | invalidLength (algorithm : Algorithm) (actual : Nat)
  | unknownAlgorithm (name : String)
deriving DecidableEq

/-- The wording of a fault. -/
def Error.message : Error → String
  | .invalidHex e         => "invalid hex string: " ++ e.message
  | .missingPrefix s      => "invalid hex string: missing algorithm prefix in " ++ Text.quote s
  | .invalidLength a n    =>
    s!"invalid digest length for {a.name}: expected {a.digestLength}, got {n}"
  | .unknownAlgorithm s   => "unknown digest algorithm: " ++ s

/-- The algorithm with a name, or the fault that there is none. -/
def algorithm? (name : String) : Except Error Algorithm :=
  match Algorithm.ofName? name with
  | some a => .ok a
  | none   => .error (.unknownAlgorithm (Algorithm.lower name))

/-- A digest as a checksum, if it has the right length. -/
def ofDigest (algorithm : Algorithm) (digest : List UInt8) : Except Error Checksum :=
  if h : digest.length = algorithm.digestLength then
    .ok ⟨algorithm, digest, h⟩
  else
    .error (.invalidLength algorithm digest.length)

/-- The checksum of some bytes. -/
def ofBytes (algorithm : Algorithm) (data : Bytes) : Checksum :=
  ⟨algorithm, algorithm.digest data, algorithm.length_digest data⟩

/-- Reads a digest of hexadecimal digits. -/
def ofHex (algorithm : Algorithm) (digits : List Char) : Except Error Checksum :=
  match Hex.decode (Text.utf8 digits) with
  | .ok digest => ofDigest algorithm digest
  | .error e   => .error (.invalidHex e)

/-- Reads the text of a checksum: what stands before the first colon names the algorithm. -/
def ofText (s : String) : Except Error Checksum :=
  match s.toList.dropWhile (· ≠ ':') with
  | []          => .error (.missingPrefix s)
  | _ :: digits => do
    let a ← algorithm? (.ofList (s.toList.takeWhile (· ≠ ':')))
    ofHex a digits

/-- The checksum of a JSON value: a string that holds its text. -/
def ofJson? : Json.Value → Option Checksum
  | .string s => (ofText s).toOption
  | _         => none

/-- The digest in hexadecimal digits. -/
def hex (c : Checksum) : String := Hex.text c.digest

/-- The first eight digits. -/
def short (c : Checksum) : String := Hex.text (c.digest.take 4)

/-- The text of a checksum. -/
def text (c : Checksum) : String := c.algorithm.name ++ ":" ++ c.hex

/-- A short description. -/
def describe (c : Checksum) : String := s!"Checksum({c.algorithm.name}:{c.short})"

/-- Checksums are ordered by algorithm, then by digest. -/
instance : Ord Checksum :=
  ⟨compareLex (compareOn (·.algorithm.rank)) (compareOn (·.digest))⟩

end Checksum

/-- The key under which a data set stores an element: the digits of its identity checksum, or any
other text. -/
abbrev ElementKey := String

/-- The element key made of a checksum. -/
def Checksum.elementKey (c : Checksum) : ElementKey := c.hex

end Depot
