import Raster.Color.Hsl

/-!
# The sRGB transfer function

Encoding and decoding of one channel and of a colour. Each direction is
linear near black and a power above its own threshold; the two thresholds
are not exactly each other's images.
-/

namespace Raster

variable {α : Type} [Scalar α]

/-- From an encoded channel to linear light. -/
def decodeChannel (v : α) : α :=
  if v < 0.04045 then v / 12.92 else Scalar.pow ((v + 0.055) / 1.055) 2.4

/-- From linear light to an encoded channel. -/
def encodeChannel (v : α) : α :=
  if v < 0.0031308 then v * 12.92 else 1.055 * Scalar.pow v (1 / 2.4) - 0.055

def Rgba.decode (c : Rgba α) : Rgba α := c.mapColor decodeChannel

def Rgba.encode (c : Rgba α) : Rgba α := c.mapColor encodeChannel

/-- The linear-light colour that a style colour names. -/
def Hsla.toLinear (c : Hsla α) : Rgba α := c.toSrgb.decode

end Raster
