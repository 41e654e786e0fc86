import Raster.Geometry.Transformation

/-!
# Device space

The corners of the unit square, numbered in the order of a triangle strip,
are stretched over a rectangle and projected to normalized device
coordinates: x to the right and y up, both from -1 to 1.
-/

namespace Raster

structure DevicePosition (α : Type) where
  x : α
  y : α
  z : α
  w : α
  deriving Repr, DecidableEq, Inhabited

variable {α : Type} [Scalar α]

/-- The corner of the unit square with a given number: the lowest bit is x, the next one y. -/
def unitCorner (index : Int) : Point α :=
  ⟨Scalar.ofInt (index % 2), Scalar.ofInt (index / 2 % 2)⟩

/-- The four corners of the unit square in the order of a triangle strip. -/
def unitCorners : List (Point α) := [0, 1, 2, 3].map unitCorner

/-- Stretches the unit square over a rectangle. -/
def Bounds.place (b : Bounds α) (unit : Point α) : Point α :=
  ⟨unit.x * b.size.width + b.origin.x, unit.y * b.size.height + b.origin.y⟩

/-- A smaller viewport is taken to have this extent, so that a position can be divided by it. -/
def minViewportExtent : α := 1e-6

def Point.toDevice (p : Point α) (viewport : Size α) : DevicePosition α :=
  let width := max viewport.width minViewportExtent
  let height := max viewport.height minViewportExtent
  ⟨p.x / width * 2 - 1, p.y / height * -2 + 1, 0, 1⟩

def Bounds.devicePositions (b : Bounds α) (viewport : Size α) : List (DevicePosition α) :=
  unitCorners.map fun unit => (b.place unit).toDevice viewport

end Raster
