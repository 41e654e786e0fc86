import Raster.Scalar

/-!
# Colours

`Rgba` carries four channels. Unless a function says otherwise the first
three are linear light; the same shape also carries encoded sRGB values
and Oklab coordinates. `Hsla` is how styles name colours: hue as a
fraction of a turn, saturation and lightness of the encoded value.
-/

namespace Raster

structure Rgba (α : Type) where
  r : α
  g : α
  b : α
  a : α
  deriving Repr, DecidableEq, Inhabited

structure Hsla (α : Type) where
  h : α
  s : α
  l : α
  a : α
  deriving Repr, DecidableEq, Inhabited

namespace Rgba

def map {α β : Type} (f : α → β) (c : Rgba α) : Rgba β := ⟨f c.r, f c.g, f c.b, f c.a⟩

variable {α : Type} [Scalar α]

/-- What a pixel outside a shape or its clip receives. -/
def transparent : Rgba α := ⟨0, 0, 0, 0⟩

/-- Interpolates every channel, alpha included. -/
def lerp (c d : Rgba α) (t : α) : Rgba α :=
  ⟨Raster.lerp c.r d.r t, Raster.lerp c.g d.g t, Raster.lerp c.b d.b t, Raster.lerp c.a d.a t⟩

/-- Changes the colour channels and leaves alpha alone. -/
def mapColor (f : α → α) (c : Rgba α) : Rgba α := ⟨f c.r, f c.g, f c.b, c.a⟩

end Rgba

end Raster
