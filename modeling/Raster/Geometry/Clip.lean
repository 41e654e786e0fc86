import Raster.Geometry.Basic

/-!
# Clip distances

The clip of a primitive is a rectangle. A position is clipped when one of
its four signed distances to the sides is negative; a position on a side
is admitted, on the right and at the bottom as well.
-/

namespace Raster

/-- Signed distances to the sides of a clip rectangle, negative outside. -/
structure ClipDistances (α : Type) where
  left : α
  right : α
  top : α
  bottom : α
  deriving Repr, DecidableEq, Inhabited

variable {α : Type} [Scalar α]

def ClipDistances.of (p : Point α) (clip : Bounds α) : ClipDistances α where
  left := p.x - clip.origin.x
  right := clip.origin.x + clip.size.width - p.x
  top := p.y - clip.origin.y
  bottom := clip.origin.y + clip.size.height - p.y

def ClipDistances.isClipped (d : ClipDistances α) : Bool :=
  d.left < 0 || d.right < 0 || d.top < 0 || d.bottom < 0

def Bounds.clips (clip : Bounds α) (p : Point α) : Bool := (ClipDistances.of p clip).isClipped

end Raster
