/-!
# Stored blocks

The plainest compressed stream: the bytes themselves, in blocks of at most
65535 behind their length and its complement. It is what this library
writes; `inflate` reads it back.
-/

namespace Raster.Deflate

def maxStored : Nat := 65535

/-- A number below 65536 as two bytes, the low one first. -/
def littleEndian16 (n : Nat) : List UInt8 := [UInt8.ofNat (n % 256), UInt8.ofNat (n / 256)]

def storedBlock (isLast : Bool) (bytes : List UInt8) : List UInt8 :=
  (if isLast then 1 else 0) :: littleEndian16 bytes.length
    ++ littleEndian16 (maxStored - bytes.length) ++ bytes

def deflate (bytes : List UInt8) : List UInt8 :=
  if bytes.length ≤ maxStored then storedBlock true bytes
  else storedBlock false (bytes.take maxStored) ++ deflate (bytes.drop maxStored)
termination_by bytes.length
decreasing_by
  simp only [List.length_drop, maxStored] at *
  omega

end Raster.Deflate
