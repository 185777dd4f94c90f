import Depot.Text.Basic
/-!
# Words of bytes

Digests work on blocks of 64 bytes read as 32-bit words, lowest byte first or highest byte first,
and give their state back as bytes in the same way.
-/

namespace Depot.Digest

/-- The byte at an index; zero past the end. -/
def byteAt (data : Bytes) (i : Nat) : UInt8 := if h : i < data.size then data[i] else 0

/-- The word at an index, lowest byte first. -/
def wordLE (data : Bytes) (i : Nat) : UInt32 :=
  (byteAt data i).toUInt32 ||| (byteAt data (i + 1)).toUInt32 <<< 8 |||
    (byteAt data (i + 2)).toUInt32 <<< 16 ||| (byteAt data (i + 3)).toUInt32 <<< 24

/-- The word at an index, highest byte first. -/
def wordBE (data : Bytes) (i : Nat) : UInt32 :=
  (byteAt data i).toUInt32 <<< 24 ||| (byteAt data (i + 1)).toUInt32 <<< 16 |||
    (byteAt data (i + 2)).toUInt32 <<< 8 ||| (byteAt data (i + 3)).toUInt32

/-- The bytes of a word, lowest first. -/
def bytesLE (w : UInt32) : List UInt8 :=
  [w.toUInt8, (w >>> 8).toUInt8, (w >>> 16).toUInt8, (w >>> 24).toUInt8]

/-- The bytes of a word, highest first. -/
def bytesBE (w : UInt32) : List UInt8 := (bytesLE w).reverse

/-- Rotation to the left, by less than the width. -/
def rotateLeft (w n : UInt32) : UInt32 := w <<< n ||| w >>> (32 - n)

/-- Rotation to the right, by less than the width. -/
def rotateRight (w n : UInt32) : UInt32 := w >>> n ||| w <<< (32 - n)

/-- Bytes in a block. -/
def blockSize : Nat := 64

/-- The message in whole blocks: a set bit, zeros, and the length in bits as eight bytes. -/
def padded (data : Bytes) (lengthBytes : List UInt8) : Bytes :=
  let zeros := (2 * blockSize - 9 - data.size % blockSize) % blockSize
  data ++ ⟨(0x80 :: List.replicate zeros 0 ++ lengthBytes).toArray⟩

/-- The length of a message in bits, highest byte first. -/
def bitLengthBE (data : Bytes) : List UInt8 :=
  let n := (data.size * 8).toUInt64
  bytesBE (n >>> 32).toUInt32 ++ bytesBE n.toUInt32

/-- The length of a message in bits, lowest byte first. -/
def bitLengthLE (data : Bytes) : List UInt8 := (bitLengthBE data).reverse

/-- Folds over the blocks of a padded message, each given by the index of its first byte. -/
def foldBlocks (message : Bytes) (step : σ → Nat → σ) (start : σ) : σ :=
  (List.range (message.size / blockSize)).foldl (fun s i => step s (i * blockSize)) start

@[simp] theorem length_bytesLE (w : UInt32) : (bytesLE w).length = 4 := rfl

@[simp] theorem length_bytesBE (w : UInt32) : (bytesBE w).length = 4 := rfl

end Depot.Digest
