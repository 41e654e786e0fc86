import Raster.Geometry.Basic

/-!
# Spans

The pixels of a frame whose centres lie in a rectangle: a half-open range
of columns and one of rows. The centre of pixel `i` is at `i + 0.5`, so
the first column is the ceiling of the left side minus one half, moved
into the frame.
-/

namespace Raster

/-- Columns `x0 ≤ x < x1` and rows `y0 ≤ y < y1`. -/
structure Span (α : Type) where
  x0 : α
  x1 : α
  y0 : α
  y1 : α
  deriving Repr, DecidableEq, Inhabited

variable {α : Type} [Scalar α]

/-- The first pixel whose centre is not before `edge`, moved into a frame of extent `extent`. -/
def firstPixel (edge extent : α) : α := min (max (Scalar.ceil (edge - 0.5)) 0) extent

/-- The pixels of a `width` by `height` frame whose centres are in a rectangle. -/
def Bounds.span (b : Bounds α) (width height : α) : Span α :=
  let x0 := firstPixel b.origin.x width
  let y0 := firstPixel b.origin.y height
  let x1 := firstPixel (b.origin.x + max b.size.width 0) width
  let y1 := firstPixel (b.origin.y + max b.size.height 0) height
  ⟨x0, max x0 x1, y0, max y0 y1⟩

namespace Span

def hasColumn (s : Span α) (x : Nat) : Bool := s.x0 ≤ Scalar.ofNat x && Scalar.ofNat x < s.x1

def hasRow (s : Span α) (y : Nat) : Bool := s.y0 ≤ Scalar.ofNat y && Scalar.ofNat y < s.y1

/-- The column and row of each pixel of a `width` by `height` frame in the span, row by row. A frame
without area has none, however long its other side is. -/
def pixels (s : Span α) (width height : Nat) : List (Nat × Nat) :=
  if width = 0 ∨ height = 0 then []
  else
    let columns := (List.range width).filter s.hasColumn
    let rows := (List.range height).filter s.hasRow
    rows.flatMap fun y => columns.map fun x => (x, y)

end Span

end Raster
