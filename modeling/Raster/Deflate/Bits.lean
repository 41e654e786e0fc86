/-!
# Bits of a byte string

A compressed stream is read as bits, the lowest bit of each byte first.
Past the end every bit reads as zero; whether that happened is a question
about the position (`Bits.size`), asked where the format can be cut off.
-/

namespace Raster.Deflate

structure Bits where
  bytes : Array UInt8
  deriving Repr, DecidableEq

namespace Bits

def size (b : Bits) : Nat := b.bytes.size * 8

/-- The bit at a position as a number, 0 past the end. -/
def bit (b : Bits) (position : Nat) : Nat :=
  match b.bytes[position / 8]? with
  | some byte => (byte.toNat >>> (position % 8)) % 2
  | none => 0

/-- The number written in `count` bits from a position on, lowest bit first. -/
def read (b : Bits) (position : Nat) : Nat → Nat
  | 0 => 0
  | count + 1 => b.bit position + 2 * b.read (position + 1) count

def byte (b : Bits) (index : Nat) : UInt8 := b.bytes[index]?.getD 0

end Bits

end Raster.Deflate
