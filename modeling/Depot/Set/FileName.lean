import Depot.Checksum
import Depot.Disk.Path
import Depot.Text.Basic
/-!
# Names of descriptor files

A data set on disk keeps one descriptor file for an element. The name of the file holds the key
and the digest of the element; the directories above it are pieces of the digest.
-/

namespace Depot

/-- The lengths of `n` pieces of a whole of length `len`: as equal as can be, longer ones first. -/
def pieceLengths (len n : Nat) : List Nat :=
  (List.range n).map fun i => if i < len % n then len / n + 1 else len / n

/-- Cuts a list into pieces of given lengths. -/
def cutInto {α : Type} (cs : List α) : List Nat → List (List α)
  | []      => []
  | n :: ns => cs.take n :: cutInto (cs.drop n) ns

/-- Cuts a text into `n` pieces of almost equal length, longer ones first. There are none if the
text has fewer than `n` characters, or if none is asked for. -/
def partition? (s : List Char) (n : Nat) : Option (List (List Char)) :=
  if n = 0 ∨ s.length < n then none else some (cutInto s (pieceLengths s.length n))

namespace DescriptorFile

/-- What stands before the key. -/
def front : List Char := "UUID_".toList

/-- What stands between the key and the digest. -/
def mark : List Char := ".SHA1_".toList

/-- What stands after the digest. -/
def back : List Char := ".dataElement".toList

/-- The name of the file for a key and a digest. -/
def name (key : ElementKey) (sha1 : String) : String :=
  .ofList (front ++ key.toList ++ mark ++ sha1.toList ++ back)

/-- The key that the name of a descriptor file holds; none if it is not such a name. -/
def key? (name : String) : Option ElementKey := do
  let rest ← Text.afterFront front name.toList
  let stem ← Text.beforeBack back rest
  let (key, sha1) ← Text.splitAtMark mark stem
  if key = [] ∨ sha1 = [] then none else some (.ofList key)

/-- Where the file for a key and a digest stands below the root of its set, the digest cut into
`chunk` pieces. The last piece is not used. -/
def place? (chunk : Nat) (key : ElementKey) (sha1 : String) : Option Disk.Location := do
  let pieces ← partition? sha1.toList chunk
  return pieces.dropLast.map .ofList ++ [name key sha1]

end DescriptorFile

end Depot
