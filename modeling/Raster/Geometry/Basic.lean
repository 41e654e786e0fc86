import Raster.Scalar

/-!
# Points and rectangles

Positions are in logical pixels, x to the right and y down. `Bounds` is an
axis-aligned rectangle given by its top-left corner and its size; a size
that is zero or negative is legal and covers nothing.
-/

namespace Raster

structure Point (α : Type) where
  x : α
  y : α
  deriving Repr, DecidableEq, Inhabited

structure Size (α : Type) where
  width : α
  height : α
  deriving Repr, DecidableEq, Inhabited

structure Bounds (α : Type) where
  origin : Point α
  size : Size α
  deriving Repr, DecidableEq, Inhabited

/-- One radius for each corner; 0 is a square corner. -/
structure Corners (α : Type) where
  topLeft : α
  topRight : α
  bottomRight : α
  bottomLeft : α
  deriving Repr, DecidableEq, Inhabited

/-- One width for each side; 0 is no border there. -/
structure Edges (α : Type) where
  top : α
  right : α
  bottom : α
  left : α
  deriving Repr, DecidableEq, Inhabited

variable {α : Type} [Scalar α]

def Point.sub (p q : Point α) : Point α := ⟨p.x - q.x, p.y - q.y⟩

namespace Bounds

def of (x y width height : α) : Bounds α := ⟨⟨x, y⟩, ⟨width, height⟩⟩

/-- Grows by `dx` on the left and right and by `dy` at the top and bottom. -/
def expand (b : Bounds α) (dx dy : α) : Bounds α :=
  ⟨⟨b.origin.x - dx, b.origin.y - dy⟩, ⟨b.size.width + 2 * dx, b.size.height + 2 * dy⟩⟩

def center (b : Bounds α) : Point α :=
  ⟨b.origin.x + b.size.width / 2, b.origin.y + b.size.height / 2⟩

/-- The overlap of two rectangles, of size zero where they do not meet. -/
def inter (a b : Bounds α) : Bounds α :=
  let left := max a.origin.x b.origin.x
  let top := max a.origin.y b.origin.y
  let right := min (a.origin.x + a.size.width) (b.origin.x + b.size.width)
  let bottom := min (a.origin.y + a.size.height) (b.origin.y + b.size.height)
  ⟨⟨left, top⟩, ⟨max 0 (right - left), max 0 (bottom - top)⟩⟩

/-- The smallest rectangle around some points; the empty set has the empty rectangle at 0. -/
def hull : List (Point α) → Bounds α
  | [] => of 0 0 0 0
  | p :: ps =>
    let left := ps.foldl (fun m q => min m q.x) p.x
    let top := ps.foldl (fun m q => min m q.y) p.y
    let right := ps.foldl (fun m q => max m q.x) p.x
    let bottom := ps.foldl (fun m q => max m q.y) p.y
    of left top (right - left) (bottom - top)

/-- Membership of a rectangle; its right and bottom sides are outside. -/
def contains (b : Bounds α) (p : Point α) : Bool :=
  b.origin.x ≤ p.x && p.x < b.origin.x + b.size.width
    && b.origin.y ≤ p.y && p.y < b.origin.y + b.size.height

end Bounds

end Raster
