/-!
# The checksum of a chunk

CRC-32 with the reflected polynomial `0xEDB88320`, started and finished
with a complement. A table holds what eight shifts do to each byte, so the
checksum takes one table entry per byte.
-/

namespace Raster.Png

/-- One bit of the division: shift out the lowest bit and subtract the polynomial if it was set. -/
def crcShift (c : UInt32) : UInt32 :=
  if c &&& 1 = 1 then (0xEDB88320 : UInt32) ^^^ (c >>> 1) else c >>> 1

def crcShift8 (c : UInt32) : UInt32 :=
  crcShift (crcShift (crcShift (crcShift (crcShift (crcShift (crcShift (crcShift c)))))))

def crcTable : Array UInt32 := (Array.range 256).map fun n => crcShift8 (UInt32.ofNat n)

def crcByte (c : UInt32) (byte : UInt8) : UInt32 :=
  crcTable.getD ((c ^^^ byte.toUInt32) &&& 0xFF).toNat 0 ^^^ (c >>> 8)

def crc32 (bytes : List UInt8) : UInt32 :=
  bytes.foldl crcByte 0xFFFFFFFF ^^^ 0xFFFFFFFF

end Raster.Png
