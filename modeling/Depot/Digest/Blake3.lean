import Depot.Digest.Word
/-!
# BLAKE3

The message is cut into chunks of 1024 bytes. Each chunk is compressed block by block to a chaining
value of eight words; the chaining values are joined pairwise to a binary tree whose left subtrees
are complete. The digest is the first 32 bytes of the compressed root.
-/

namespace Depot.Digest.Blake3

/-- Eight words that sum up a chunk or a subtree. -/
structure Chain where
  a : UInt32
  b : UInt32
  c : UInt32
  d : UInt32
  e : UInt32
  f : UInt32
  g : UInt32
  h : UInt32

/-- The words of a chaining value. -/
def Chain.words (v : Chain) : Array UInt32 := #[v.a, v.b, v.c, v.d, v.e, v.f, v.g, v.h]

/-- The chaining value before the first block of a chunk. -/
def initial : Chain :=
  ⟨0x6a09e667, 0xbb67ae85, 0x3c6ef372, 0xa54ff53a, 0x510e527f, 0x9b05688c, 0x1f83d9ab, 0x5be0cd19⟩

/-- Bytes in a chunk. -/
def chunkSize : Nat := 1024

/-- Marks the first block of a chunk. -/
def chunkStart : UInt32 := 1
/-- Marks the last block of a chunk. -/
def chunkEnd : UInt32 := 2
/-- Marks a block of two chaining values. -/
def parent : UInt32 := 4
/-- Marks the root. -/
def root : UInt32 := 8

/-- The order in which a round leaves the message words for the next one. -/
def permutation : Array Nat := #[2, 6, 3, 10, 7, 0, 4, 13, 1, 11, 12, 5, 9, 14, 15, 8]

/-- Mixes two message words into four words of the state. -/
def quarter (v : Array UInt32) (a b c d : Nat) (x y : UInt32) : Array UInt32 :=
  let at_ (i : Nat) := v.getD i 0
  let a₁ := at_ a + at_ b + x
  let d₁ := rotateRight (at_ d ^^^ a₁) 16
  let c₁ := at_ c + d₁
  let b₁ := rotateRight (at_ b ^^^ c₁) 12
  let a₂ := a₁ + b₁ + y
  let d₂ := rotateRight (d₁ ^^^ a₂) 8
  let c₂ := c₁ + d₂
  let b₂ := rotateRight (b₁ ^^^ c₂) 7
  (((v.setIfInBounds a a₂).setIfInBounds b b₂).setIfInBounds c c₂).setIfInBounds d d₂

/-- One round: the columns, then the diagonals. -/
def round (m v : Array UInt32) : Array UInt32 :=
  let w (i : Nat) := m.getD i 0
  let v := quarter v 0 4 8 12 (w 0) (w 1)
  let v := quarter v 1 5 9 13 (w 2) (w 3)
  let v := quarter v 2 6 10 14 (w 4) (w 5)
  let v := quarter v 3 7 11 15 (w 6) (w 7)
  let v := quarter v 0 5 10 15 (w 8) (w 9)
  let v := quarter v 1 6 11 12 (w 10) (w 11)
  let v := quarter v 2 7 8 13 (w 12) (w 13)
  quarter v 3 4 9 14 (w 14) (w 15)

/-- A block that is ready to be compressed. -/
structure Node where
  chain : Chain
  words : Array UInt32
  counter : Nat
  size : Nat
  flags : UInt32

/-- The chaining value that a block leaves: seven rounds, then the two halves of the state
combined. -/
def Node.compress (n : Node) (flags : UInt32) : Chain :=
  let start := n.chain.words ++
    #[initial.a, initial.b, initial.c, initial.d, n.counter.toUInt32,
      (n.counter / 0x100000000).toUInt32, n.size.toUInt32, n.flags ||| flags]
  let (v, _) := (List.range 7).foldl
    (fun (v, m) _ => (round m v, permutation.map fun i => m.getD i 0)) (start, n.words)
  let out (i : Nat) := v.getD i 0 ^^^ v.getD (i + 8) 0
  ⟨out 0, out 1, out 2, out 3, out 4, out 5, out 6, out 7⟩

/-- The chaining value of a block that is not the root. -/
def Node.value (n : Node) : Chain := n.compress 0

/-- The node that joins two chaining values. -/
def join (left right : Chain) : Node :=
  { chain := initial, words := left.words ++ right.words, counter := 0, size := 64
    flags := parent }

/-- The last block of the chunk with the given number, after the blocks before it. -/
def chunkNode (data : Bytes) (number : Nat) : Node :=
  let start := number * chunkSize
  let size := min chunkSize (data.size - start)
  let blocks := max 1 ((size + blockSize - 1) / blockSize)
  let node (chain : Chain) (i : Nat) : Node :=
    { chain
      words := (Array.range 16).map fun j => wordLE data (start + i * blockSize + 4 * j)
      counter := number
      size := min blockSize (size - i * blockSize)
      flags := (if i = 0 then chunkStart else 0) ||| (if i + 1 = blocks then chunkEnd else 0) }
  let chain := (List.range (blocks - 1)).foldl (fun c i => (node c i).value) initial
  node chain (blocks - 1)

/-- Adds the value of a complete chunk to the subtrees on the left, largest last. Subtrees of equal
size are joined; `count` is the number of chunks so far, and each of its trailing zeros stands for
one such join. -/
def push (count : Nat) (value : Chain) : List Chain → List Chain
  | []          => [value]
  | left :: stack =>
    if count % 2 = 0 then push (count / 2) (join left value).value stack else value :: left :: stack

/-- The digest of some bytes. -/
def digest (data : Bytes) : List UInt8 :=
  let last := (data.size - 1) / chunkSize
  let stack := (List.range last).foldl
    (fun stack i => push (i + 1) (chunkNode data i).value stack) []
  let top := stack.foldl (fun node left => join left node.value) (chunkNode data last)
  let v := top.compress root
  bytesLE v.a ++ bytesLE v.b ++ bytesLE v.c ++ bytesLE v.d ++
    bytesLE v.e ++ bytesLE v.f ++ bytesLE v.g ++ bytesLE v.h

theorem length_digest (data : Bytes) : (digest data).length = 32 := rfl

end Depot.Digest.Blake3
