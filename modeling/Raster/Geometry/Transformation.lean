import Raster.Geometry.Basic

/-!
# Affine transformations

A position goes to a 2×2 matrix times the position plus a translation.
-/

namespace Raster

/-- `(x, y)` goes to `(a x + b y + tx, c x + d y + ty)`. -/
structure Transformation (α : Type) where
  a : α
  b : α
  c : α
  d : α
  tx : α
  ty : α
  deriving Repr, DecidableEq, Inhabited

namespace Transformation

variable {α : Type} [Scalar α]

def identity : Transformation α := ⟨1, 0, 0, 1, 0, 0⟩

def apply (t : Transformation α) (p : Point α) : Point α :=
  ⟨t.a * p.x + t.b * p.y + t.tx, t.c * p.x + t.d * p.y + t.ty⟩

def det (t : Transformation α) : α := t.a * t.d - t.b * t.c

/-- A determinant of smaller magnitude counts as singular. -/
def minDet : α := 1e-12

def inverse? (t : Transformation α) : Option (Transformation α) :=
  if Scalar.abs t.det < minDet then none
  else
    let a := t.d / t.det
    let b := -t.b / t.det
    let c := -t.c / t.det
    let d := t.a / t.det
    some ⟨a, b, c, d, -(a * t.tx + b * t.ty), -(c * t.tx + d * t.ty)⟩

def isIdentity (t : Transformation α) : Bool :=
  t.a == 1 && t.b == 0 && t.c == 0 && t.d == 1 && t.tx == 0 && t.ty == 0

end Transformation

end Raster
