import Raster.Color.Transfer
import Raster.Frame.Basic
import Raster.Png.Encoding

/-!
# Pictures of frames

A frame is exported as eight-bit sRGB with straight alpha, and that as a
PNG file.
-/

namespace Raster

variable {α : Type} [Scalar α]

/-- The nearest of the 256 levels of a number from 0 to 1; halves go up. -/
def levelOf (v : α) : UInt8 := UInt8.ofInt (Scalar.toInt (Scalar.floor (v * 255 + 0.5)))

/-- The four bytes of a stored pixel: colour divided by alpha, encoded, and alpha as it is. What is
transparent is black. -/
def Rgba.toBytes (c : Rgba α) : List UInt8 :=
  let alpha := saturate c.a
  let level (v : α) : UInt8 := levelOf (encodeChannel (saturate (v / alpha)))
  if alpha == 0 then [0, 0, 0, 0] else [level c.r, level c.g, level c.b, levelOf alpha]

namespace Frame

def toBytes (f : Frame α) : List UInt8 :=
  (List.range (f.width * f.height)).flatMap fun i => (Buffer.pixel f.data (i * 4 : Nat)).toBytes

def toPng [Memory] (f : Frame α) : Except (Png.EncodingError α) (List UInt8) :=
  Png.encode f.toBytes (Scalar.ofNat f.width) (Scalar.ofNat f.height)

end Frame

end Raster
