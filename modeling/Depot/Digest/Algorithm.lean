import Depot.Digest.Blake3
import Depot.Digest.Md5
import Depot.Digest.Sha1
import Depot.Digest.Sha256
import Depot.Json.Value
/-!
# Digest algorithms

The algorithms, their names and the lengths of their digests.
-/

namespace Depot

/-- A digest algorithm. -/
inductive Algorithm where
  | md5
  | sha1
  | sha256
  | blake3
deriving DecidableEq, Repr

namespace Algorithm

/-- Every algorithm, in order. -/
def all : List Algorithm := [md5, sha1, sha256, blake3]

/-- The algorithm of identities: element keys are made with it. -/
def identity : Algorithm := sha1

/-- Bytes in a digest. -/
def digestLength : Algorithm → Nat
  | md5    => 16
  | sha1   => 20
  | sha256 => 32
  | blake3 => 32

/-- The name, in lower case. -/
def name : Algorithm → String
  | md5    => "md5"
  | sha1   => "sha1"
  | sha256 => "sha256"
  | blake3 => "blake3"

/-- The name with a capital. -/
def title : Algorithm → String
  | md5    => "Md5"
  | sha1   => "Sha1"
  | sha256 => "Sha256"
  | blake3 => "Blake3"

/-- Place in the order. -/
def rank : Algorithm → Nat
  | md5    => 0
  | sha1   => 1
  | sha256 => 2
  | blake3 => 3

/-- The algorithm with this lower-case name; a dash before the number is allowed. -/
def ofLowerName? (s : String) : Option Algorithm :=
  if s = "md5" then some md5
  else if s = "sha1" ∨ s = "sha-1" then some sha1
  else if s = "sha256" ∨ s = "sha-256" then some sha256
  else if s = "blake3" then some blake3
  else none

/-- The text with its ASCII capitals made small. -/
def lower (s : String) : String := .ofList (s.toList.map Char.toLower)

/-- The algorithm with this name, in either case. -/
def ofName? (s : String) : Option Algorithm := ofLowerName? (lower s)

/-- The algorithm of a JSON value, its members as they stand in the text: its exact name, alone or
as the only key of an object with null under it. -/
def ofJson? : Json.Value → Option Algorithm
  | .string s            => all.find? (·.name = s)
  | .object [(s, .null)] => all.find? (·.name = s)
  | _                    => none

/-- The digest of some bytes. -/
def digest : Algorithm → Bytes → List UInt8
  | md5    => Digest.Md5.digest
  | sha1   => Digest.Sha1.digest
  | sha256 => Digest.Sha256.digest
  | blake3 => Digest.Blake3.digest

theorem length_digest (a : Algorithm) (data : Bytes) :
    (a.digest data).length = a.digestLength := by
  cases a <;> rfl

theorem ofName?_name (a : Algorithm) : ofName? a.name = some a := by
  cases a <;> decide +kernel

end Algorithm

end Depot
