import Raster.Memory
import Raster.Deflate.Stored
import Raster.Png.Chunk
import Raster.Png.Filter

/-!
# Writing PNG images

An image is written as RGBA of eight bits per channel, every row under the
filter that changes nothing, with any compression (`Png.encodeWith`).

The size is given as two numbers of any kind, and all that is asked of them
is that four times their product is the length of the data. The ends of a
row in the data and its place among the scanlines are worked out from them
as numbers and rounded toward zero (`Png.setRows`); the header holds the
integer parts of the sides, modulo the range of its fields.
-/

namespace Raster.Png

/-! ## Files -/

def headerPayload (width height : Nat) : List UInt8 :=
  bigEndian32 width ++ bigEndian32 height ++ [8, 6, 0, 0, 0]

/-- The chunks of an RGBA image with given compressed scanline data. -/
def chunksOf (width height : Nat) (compressed : List UInt8) : List Chunk :=
  [Chunk.of Chunk.header (headerPayload width height),
   Chunk.of Chunk.data compressed,
   Chunk.of Chunk.trailer []]

def file (width height : Nat) (compressed : List UInt8) : List UInt8 :=
  signature ++ (chunksOf width height compressed).flatMap Chunk.write

/-! ## Images -/

inductive EncodingError (α : Type) where
  | sizeMismatch (length : Nat) (width height : α)
  | noBuffer (error : BufferError α)
  /-- A row reaches past the end of the scanline data. -/
  | rowOutside
  deriving Repr, DecidableEq

variable {α : Type} [Scalar α]

/-- The integer part of a number, 0 if that is negative. -/
def wholePart (x : α) : Nat := (Scalar.toInt x).toNat

/-- What a header field holds of a number: the integer part modulo `2 ^ 32`. -/
def fieldOf (x : α) : Nat := (Scalar.toInt x % 4294967296).toNat

/-- Overwrites bytes from a place on. -/
def setBytes (raw : Array UInt8) : (place : Nat) → List UInt8 → Array UInt8
  | _, [] => raw
  | place, byte :: rest => setBytes (raw.setIfInBounds place byte) (place + 1) rest

/-- Copies so many rows, from row `y` on, to their places among the scanlines. A row that reaches
past the end is refused. -/
def setRows (data : Array UInt8) (width : α) :
    (rows y : Nat) → Array UInt8 → Except (EncodingError α) (Array UInt8)
  | 0, _, raw => .ok raw
  | rows + 1, y, raw =>
    let row := data.extract (wholePart (Scalar.ofNat y * (width * 4)))
      (wholePart (Scalar.ofNat (y + 1) * (width * 4)))
    let place := wholePart (Scalar.ofNat y * (width * 4 + 1) + 1)
    if raw.size < place + row.size then .error .rowOutside
    else setRows data width rows (y + 1) (setBytes raw place row.toList)

variable [Memory]

/-- Writes an RGBA image under a compression. The bytes of a row are copied behind the one that
names its filter, which is zero as the buffer is blank. -/
def encodeWith (deflate : List UInt8 → List UInt8) (data : List UInt8) (width height : α) :
    Except (EncodingError α) (List UInt8) :=
  if Scalar.ofNat data.length == width * height * 4 then do
    let size ← (bufferLength 1 (height * (width * 4 + 1))).mapError .noBuffer
    let rows := (Scalar.natCeil? height).getD 0
    let raw ← setRows data.toArray width rows 0 (Array.replicate size 0)
    return file (fieldOf width) (fieldOf height) (deflate raw.toList)
  else .error (.sizeMismatch data.length width height)

def encode (data : List UInt8) (width height : α) : Except (EncodingError α) (List UInt8) :=
  encodeWith Deflate.deflate data width height

end Raster.Png
