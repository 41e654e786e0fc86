import Raster.Png.Crc

/-!
# Chunks

After its signature a PNG file is a sequence of chunks: the length of the
payload, a type of four bytes, the payload, and a checksum over type and
payload. `Chunk.write` writes one; `Chunk.readAll` reads as many as there
are, the last of which may be cut off anywhere behind its type.
-/

namespace Raster.Png

def signature : List UInt8 := [137, 80, 78, 71, 13, 10, 26, 10]

/-- Four bytes, the highest first. -/
def bigEndian32 (n : Nat) : List UInt8 :=
  [UInt8.ofNat (n >>> 24), UInt8.ofNat (n >>> 16), UInt8.ofNat (n >>> 8), UInt8.ofNat n]

/-- The number in the first four bytes; bytes that are not there count as 0. -/
def readBigEndian32 (bytes : List UInt8) : Nat :=
  let byte (i : Nat) : Nat := (bytes[i]?.getD 0).toNat
  ((byte 0 * 256 + byte 1) * 256 + byte 2) * 256 + byte 3

structure Chunk where
  type : List UInt8
  payload : List UInt8
  /-- The stored checksum, right or wrong. -/
  checksum : List UInt8
  deriving Repr, DecidableEq

namespace Chunk

def header : List UInt8 := [73, 72, 68, 82]

/-- A piece of the compressed scanlines. -/
def data : List UInt8 := [73, 68, 65, 84]

def trailer : List UInt8 := [73, 69, 78, 68]

/-- The checksum that belongs to a type and a payload. -/
def checksumOf (type payload : List UInt8) : List UInt8 :=
  bigEndian32 (crc32 (type ++ payload)).toNat

def of (type payload : List UInt8) : Chunk := ⟨type, payload, checksumOf type payload⟩

def write (c : Chunk) : List UInt8 :=
  bigEndian32 c.payload.length ++ c.type ++ c.payload ++ c.checksum

/-- The chunks of a byte string, as long as there are the eight bytes of a length and a type. A
payload or checksum that the string cannot hold is cut off. -/
def readAll (bytes : List UInt8) : List Chunk :=
  if bytes.length < 8 then []
  else
    let length := readBigEndian32 bytes
    let body := bytes.drop 8
    ⟨(bytes.drop 4).take 4, body.take length, (body.drop length).take 4⟩
      :: readAll (bytes.drop (12 + length))
termination_by bytes.length
decreasing_by
  simp only [List.length_drop]
  omega

end Chunk

end Raster.Png
