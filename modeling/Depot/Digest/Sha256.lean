import Depot.Digest.Word
/-!
# SHA-256

Eight words of state, 64 steps a block, words highest byte first. The digest has 32 bytes.
-/

namespace Depot.Digest.Sha256

/-- The state between steps. -/
structure State where
  a : UInt32
  b : UInt32
  c : UInt32
  d : UInt32
  e : UInt32
  f : UInt32
  g : UInt32
  h : UInt32

/-- The state before the first block. -/
def initial : State :=
  ⟨0x6a09e667, 0xbb67ae85, 0x3c6ef372, 0xa54ff53a, 0x510e527f, 0x9b05688c, 0x1f83d9ab, 0x5be0cd19⟩

/-- The constant of each step. -/
def constants : Array UInt32 :=
  #[0x428a2f98, 0x71374491, 0xb5c0fbcf, 0xe9b5dba5, 0x3956c25b, 0x59f111f1, 0x923f82a4, 0xab1c5ed5,
    0xd807aa98, 0x12835b01, 0x243185be, 0x550c7dc3, 0x72be5d74, 0x80deb1fe, 0x9bdc06a7, 0xc19bf174,
    0xe49b69c1, 0xefbe4786, 0x0fc19dc6, 0x240ca1cc, 0x2de92c6f, 0x4a7484aa, 0x5cb0a9dc, 0x76f988da,
    0x983e5152, 0xa831c66d, 0xb00327c8, 0xbf597fc7, 0xc6e00bf3, 0xd5a79147, 0x06ca6351, 0x14292967,
    0x27b70a85, 0x2e1b2138, 0x4d2c6dfc, 0x53380d13, 0x650a7354, 0x766a0abb, 0x81c2c92e, 0x92722c85,
    0xa2bfe8a1, 0xa81a664b, 0xc24b8b70, 0xc76c51a3, 0xd192e819, 0xd6990624, 0xf40e3585, 0x106aa070,
    0x19a4c116, 0x1e376c08, 0x2748774c, 0x34b0bcb5, 0x391c0cb3, 0x4ed8aa4a, 0x5b9cca4f, 0x682e6ff3,
    0x748f82ee, 0x78a5636f, 0x84c87814, 0x8cc70208, 0x90befffa, 0xa4506ceb, 0xbef9a3f7, 0xc67178f2]

/-- Extends the words of a block by one. -/
def extend (w : Array UInt32) (_ : Nat) : Array UInt32 :=
  let at_ (back : Nat) := w.getD (w.size - back) 0
  let x := at_ 15
  let y := at_ 2
  let s₀ := rotateRight x 7 ^^^ rotateRight x 18 ^^^ x >>> 3
  let s₁ := rotateRight y 17 ^^^ rotateRight y 19 ^^^ y >>> 10
  w.push (at_ 16 + s₀ + at_ 7 + s₁)

/-- The 64 words of the block that begins at `start`. -/
def schedule (message : Bytes) (start : Nat) : Array UInt32 :=
  (List.range 48).foldl extend ((Array.range 16).map fun i => wordBE message (start + 4 * i))

/-- One step. -/
def step (w : Array UInt32) (s : State) (i : Nat) : State :=
  let s₁ := rotateRight s.e 6 ^^^ rotateRight s.e 11 ^^^ rotateRight s.e 25
  let choice := s.e &&& s.f ^^^ ~~~s.e &&& s.g
  let t₁ := s.h + s₁ + choice + constants.getD i 0 + w.getD i 0
  let s₀ := rotateRight s.a 2 ^^^ rotateRight s.a 13 ^^^ rotateRight s.a 22
  let majority := s.a &&& s.b ^^^ s.a &&& s.c ^^^ s.b &&& s.c
  { a := t₁ + s₀ + majority
    b := s.a
    c := s.b
    d := s.c
    e := s.d + t₁
    f := s.e
    g := s.f
    h := s.g }

/-- The 64 steps of a block, added to the state before it. -/
def block (message : Bytes) (s : State) (start : Nat) : State :=
  let t := (List.range 64).foldl (step (schedule message start)) s
  ⟨s.a + t.a, s.b + t.b, s.c + t.c, s.d + t.d, s.e + t.e, s.f + t.f, s.g + t.g, s.h + t.h⟩

/-- The digest of some bytes. -/
def digest (data : Bytes) : List UInt8 :=
  let message := padded data (bitLengthBE data)
  let s := foldBlocks message (block message) initial
  bytesBE s.a ++ bytesBE s.b ++ bytesBE s.c ++ bytesBE s.d ++
    bytesBE s.e ++ bytesBE s.f ++ bytesBE s.g ++ bytesBE s.h

theorem length_digest (data : Bytes) : (digest data).length = 32 := rfl

end Depot.Digest.Sha256
