import Raster.Geometry.Basic

/-!
# Distances to rounded shapes

Signed distances, in pixels. A point is reflected into the bottom-right
quadrant of the rectangle first, so each function looks at one corner:
`Corners.radiusAt` picks the radius of the quadrant, and the rest is measured
from the centre of that corner's circle.
-/

namespace Raster

variable {α : Type} [Scalar α]

/-- The radius of the corner in whose quadrant a vector from the centre points. -/
def Corners.radiusAt (radii : Corners α) (fromCenter : Point α) : α :=
  if fromCenter.x < 0 then
    if fromCenter.y < 0 then radii.topLeft else radii.bottomLeft
  else
    if fromCenter.y < 0 then radii.topRight else radii.bottomRight

/-- Where all corners have one radius, a vector picks that one. -/
theorem Corners.radiusAt_of_eq {radii : Corners α} {radius : α}
    (h : radii = ⟨radius, radius, radius, radius⟩) (fromCenter : Point α) :
    radii.radiusAt fromCenter = radius := by
  rw [h]
  unfold radiusAt
  simp only [ite_self]

/-- How far a reflected vector from the centre reaches beyond the corner of the rectangle; both
components are negative inside. -/
def Bounds.beyondCorner (b : Bounds α) (fromCenter : Point α) : Point α :=
  ⟨Scalar.abs fromCenter.x - b.size.width / 2, Scalar.abs fromCenter.y - b.size.height / 2⟩

/-- Distance to a rounded corner, from a vector that starts at the centre of its circle. A square
corner has the larger of the two distances to the sides. -/
def cornerDistance (fromCircle : Point α) (radius : α) : α :=
  if radius == 0 then max fromCircle.x fromCircle.y
  else
    let outside := Scalar.hypot (max 0 fromCircle.x) (max 0 fromCircle.y)
    let inside := min 0 (max fromCircle.x fromCircle.y)
    outside + inside - radius

/-- Signed distance to a rounded rectangle, negative inside. -/
def Bounds.roundedDistance (b : Bounds α) (radii : Corners α) (p : Point α) : α :=
  let fromCenter := p.sub b.center
  let radius := radii.radiusAt fromCenter
  let beyond := b.beyondCorner fromCenter
  cornerDistance ⟨beyond.x + radius, beyond.y + radius⟩ radius

/-- An ellipse with a smaller radius is taken to have this one. -/
def minEllipseRadius : α := 1e-6

/-- Approximate distance to a quarter ellipse, positive inside: the distance to the unit circle,
scaled by the mean radius. -/
def ellipseDistance (p : Point α) (radii : Point α) : α :=
  let rx := max radii.x minEllipseRadius
  let ry := max radii.y minEllipseRadius
  let unitDistance := Scalar.hypot (p.x / rx) (p.y / ry) - 1
  unitDistance * (rx + ry) * -0.5

end Raster
