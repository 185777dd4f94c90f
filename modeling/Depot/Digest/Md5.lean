import Depot.Digest.Word
/-!
# MD5

Four words of state, 64 steps a block, words lowest byte first. The digest has 16 bytes.
-/

namespace Depot.Digest.Md5

/-- The state between steps. -/
structure State where
  a : UInt32
  b : UInt32
  c : UInt32
  d : UInt32

/-- The state before the first block. -/
def initial : State := ⟨0x67452301, 0xefcdab89, 0x98badcfe, 0x10325476⟩

/-- The constant and the rotation of each step, in four rounds of sixteen. -/
def constants : Array UInt32 :=
  #[0xd76aa478, 0xe8c7b756, 0x242070db, 0xc1bdceee, 0xf57c0faf, 0x4787c62a, 0xa8304613, 0xfd469501,
    0x698098d8, 0x8b44f7af, 0xffff5bb1, 0x895cd7be, 0x6b901122, 0xfd987193, 0xa679438e, 0x49b40821,
    0xf61e2562, 0xc040b340, 0x265e5a51, 0xe9b6c7aa, 0xd62f105d, 0x02441453, 0xd8a1e681, 0xe7d3fbc8,
    0x21e1cde6, 0xc33707d6, 0xf4d50d87, 0x455a14ed, 0xa9e3e905, 0xfcefa3f8, 0x676f02d9, 0x8d2a4c8a,
    0xfffa3942, 0x8771f681, 0x6d9d6122, 0xfde5380c, 0xa4beea44, 0x4bdecfa9, 0xf6bb4b60, 0xbebfbc70,
    0x289b7ec6, 0xeaa127fa, 0xd4ef3085, 0x04881d05, 0xd9d4d039, 0xe6db99e5, 0x1fa27cf8, 0xc4ac5665,
    0xf4292244, 0x432aff97, 0xab9423a7, 0xfc93a039, 0x655b59c3, 0x8f0ccc92, 0xffeff47d, 0x85845dd1,
    0x6fa87e4f, 0xfe2ce6e0, 0xa3014314, 0x4e0811a1, 0xf7537e82, 0xbd3af235, 0x2ad7d2bb, 0xeb86d391]

/-- The rotations of a round repeat every four steps. -/
def rotations : Array UInt32 := #[7, 12, 17, 22, 5, 9, 14, 20, 4, 11, 16, 23, 6, 10, 15, 21]

/-- The mixed words and the place of the message word of a step. -/
def mix (s : State) (i : Nat) : UInt32 × Nat :=
  match i / 16 with
  | 0 => (s.b &&& s.c ||| ~~~s.b &&& s.d, i)
  | 1 => (s.d &&& s.b ||| ~~~s.d &&& s.c, (5 * i + 1) % 16)
  | 2 => (s.b ^^^ s.c ^^^ s.d, (3 * i + 5) % 16)
  | _ => (s.c ^^^ (s.b ||| ~~~s.d), 7 * i % 16)

/-- One step on the block that begins at `start`. -/
def step (message : Bytes) (start : Nat) (s : State) (i : Nat) : State :=
  let (f, place) := mix s i
  let sum := f + s.a + constants.getD i 0 + wordLE message (start + 4 * place)
  { a := s.d
    b := s.b + rotateLeft sum (rotations.getD (i / 16 * 4 + i % 4) 0)
    c := s.b
    d := s.c }

/-- The 64 steps of a block, added to the state before it. -/
def block (message : Bytes) (s : State) (start : Nat) : State :=
  let t := (List.range 64).foldl (step message start) s
  ⟨s.a + t.a, s.b + t.b, s.c + t.c, s.d + t.d⟩

/-- The digest of some bytes. -/
def digest (data : Bytes) : List UInt8 :=
  let message := padded data (bitLengthLE data)
  let s := foldBlocks message (block message) initial
  bytesLE s.a ++ bytesLE s.b ++ bytesLE s.c ++ bytesLE s.d

theorem length_digest (data : Bytes) : (digest data).length = 16 := rfl

end Depot.Digest.Md5
