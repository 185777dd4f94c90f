import Depot.Digest.Word
/-!
# SHA-1

Five words of state, 80 steps a block, words highest byte first. The digest has 20 bytes.
-/

namespace Depot.Digest.Sha1

/-- The state between steps. -/
structure State where
  a : UInt32
  b : UInt32
  c : UInt32
  d : UInt32
  e : UInt32

/-- The state before the first block. -/
def initial : State := ⟨0x67452301, 0xefcdab89, 0x98badcfe, 0x10325476, 0xc3d2e1f0⟩

/-- Extends the words of a block by one. -/
def extend (w : Array UInt32) (_ : Nat) : Array UInt32 :=
  let at_ (back : Nat) := w.getD (w.size - back) 0
  w.push (rotateLeft (at_ 3 ^^^ at_ 8 ^^^ at_ 14 ^^^ at_ 16) 1)

/-- The 80 words of the block that begins at `start`. -/
def schedule (message : Bytes) (start : Nat) : Array UInt32 :=
  (List.range 64).foldl extend ((Array.range 16).map fun i => wordBE message (start + 4 * i))

/-- The mixed words and the constant of a step, in four rounds of twenty. -/
def mix (s : State) (i : Nat) : UInt32 × UInt32 :=
  match i / 20 with
  | 0 => (s.b &&& s.c ||| ~~~s.b &&& s.d, 0x5a827999)
  | 1 => (s.b ^^^ s.c ^^^ s.d, 0x6ed9eba1)
  | 2 => (s.b &&& s.c ||| s.b &&& s.d ||| s.c &&& s.d, 0x8f1bbcdc)
  | _ => (s.b ^^^ s.c ^^^ s.d, 0xca62c1d6)

/-- One step. -/
def step (w : Array UInt32) (s : State) (i : Nat) : State :=
  let (f, k) := mix s i
  { a := rotateLeft s.a 5 + f + s.e + k + w.getD i 0
    b := s.a
    c := rotateLeft s.b 30
    d := s.c
    e := s.d }

/-- The 80 steps of a block, added to the state before it. -/
def block (message : Bytes) (s : State) (start : Nat) : State :=
  let t := (List.range 80).foldl (step (schedule message start)) s
  ⟨s.a + t.a, s.b + t.b, s.c + t.c, s.d + t.d, s.e + t.e⟩

/-- The digest of some bytes. -/
def digest (data : Bytes) : List UInt8 :=
  let message := padded data (bitLengthBE data)
  let s := foldBlocks message (block message) initial
  bytesBE s.a ++ bytesBE s.b ++ bytesBE s.c ++ bytesBE s.d ++ bytesBE s.e

theorem length_digest (data : Bytes) : (digest data).length = 20 := rfl

end Depot.Digest.Sha1
