import Raster.Color.Blend
import Raster.Fill
import Raster.Primitive.Basic

/-!
# Paths

A path is a list of triangles. Each vertex carries a position `(s, t)` in
curve space, interpolated across the triangle; the filled side of a curve
is `s² < t`, with a ramp one pixel wide along it. A triangle with the
constant `(0, 1)` has straight edges and is covered throughout.

Of two triangles that share an edge only one may have the pixel centres on
it: a centre exactly on an edge belongs to the triangle if the edge is a
top or a left one.
-/

namespace Raster

structure PathVertex (α : Type) where
  position : Point α
  /-- The position in curve space. -/
  curve : Point α
  deriving Repr, DecidableEq, Inhabited

structure Path (α : Type) extends Placement α where
  fill : Fill α
  vertices : List (PathVertex α)
  deriving Repr, DecidableEq, Inhabited

/-- A vertex with what it needs to know of its path. -/
structure VertexRecord (α : Type) where
  position : Point α
  curve : Point α
  contentMask : Bounds α
  /-- The bounds of the whole path, in which a gradient is laid out. -/
  bounds : Bounds α
  fill : Fill α
  deriving Repr, DecidableEq, Inhabited

/-- Three vertices; the first one decides clip, bounds and fill. -/
structure Triangle (α : Type) where
  a : VertexRecord α
  b : VertexRecord α
  c : VertexRecord α
  deriving Repr, DecidableEq, Inhabited

/-- The oriented line `nx (p.x - x) + ny (p.y - y)`, positive on the inner side. -/
structure EdgeLine (α : Type) where
  x : α
  y : α
  nx : α
  ny : α
  /-- Points on a top or left edge are inside. -/
  topLeft : Bool
  deriving Repr, DecidableEq, Inhabited

structure EdgeLines (α : Type) where
  ab : EdgeLine α
  bc : EdgeLine α
  ca : EdgeLine α
  deriving Repr, DecidableEq, Inhabited

structure TriangleVarying (α : Type) where
  /-- None for a triangle without area. -/
  edges : Option (EdgeLines α)
  origin : Point α
  /-- The position in curve space at `origin`. -/
  curve : Point α
  /-- How it changes along x. -/
  dx : Point α
  /-- How it changes along y. -/
  dy : Point α
  fill : PreparedFill α
  deriving Repr, DecidableEq, Inhabited

namespace Path

variable {α : Type}

def records (path : Path α) : List (VertexRecord α) :=
  path.vertices.map fun v =>
    { position := v.position
      curve := v.curve
      contentMask := path.contentMask
      bounds := path.bounds
      fill := path.fill }

/-- The vertices of all paths in order, at most `limit` of them if there is a limit. -/
def flatten (paths : List (Path α)) (limit : Option Nat) : List (VertexRecord α) :=
  let all := paths.flatMap records
  match limit with
  | some n => all.take n
  | none => all

def vertexCount (paths : List (Path α)) : Nat := (paths.flatMap (·.vertices)).length

end Path

namespace Triangle

variable {α : Type}

/-- Groups records in threes; what is left over at the end is dropped. -/
def ofRecords : List (VertexRecord α) → List (Triangle α)
  | a :: b :: c :: rest => ⟨a, b, c⟩ :: ofRecords rest
  | _ => []

end Triangle

variable {α : Type} [Scalar α]

namespace EdgeLine

/-- The line through two vertices; `orientation` is 1 or -1 by the sense of the triangle. -/
def through (start stop : Point α) (orientation : α) : EdgeLine α :=
  let nx := -orientation * (stop.y - start.y)
  let ny := orientation * (stop.x - start.x)
  ⟨start.x, start.y, nx, ny, 0 < nx || (nx == 0 && 0 < ny)⟩

def admits (e : EdgeLine α) (p : Point α) : Bool :=
  let w := e.nx * (p.x - e.x) + e.ny * (p.y - e.y)
  0 < w || (w == 0 && e.topLeft)

end EdgeLine

namespace EdgeLines

def of (a b c : Point α) (orientation : α) : EdgeLines α :=
  ⟨.through a b orientation, .through b c orientation, .through c a orientation⟩

def contains (e : EdgeLines α) (p : Point α) : Bool := e.ab.admits p && e.bc.admits p && e.ca.admits p

end EdgeLines

namespace TriangleVarying

def curveAt (v : TriangleVarying α) (p : Point α) : Point α :=
  let x := p.x - v.origin.x
  let y := p.y - v.origin.y
  ⟨v.curve.x + v.dx.x * x + v.dy.x * y, v.curve.y + v.dx.y * x + v.dy.y * y⟩

/-- A smaller slope of the curve function counts as flat. -/
def minSlope : α := 1e-6

/-- Coverage by the filled side of the curve: the value of `s² - t` over its slope is the distance
to the curve. -/
def curveCoverage (v : TriangleVarying α) (p : Point α) : α :=
  let st := v.curveAt p
  let slopeX := 2 * st.x * v.dx.x - v.dx.y
  let slopeY := 2 * st.x * v.dy.x - v.dy.y
  let slope := Scalar.hypot slopeX slopeY
  if slope < minSlope then 1 else saturate (0.5 - (st.x * st.x - st.y) / slope)

end TriangleVarying

namespace Triangle

def cross (t : Triangle α) : α :=
  let ab := t.b.position.sub t.a.position
  let ac := t.c.position.sub t.a.position
  ab.x * ac.y - ab.y * ac.x

def varying (t : Triangle α) : TriangleVarying α :=
  let origin := t.a.position
  let curve := t.a.curve
  let fill := t.a.fill.prepare
  let cross := t.cross
  if cross == 0 then { edges := none, origin, curve, dx := ⟨0, 0⟩, dy := ⟨0, 0⟩, fill }
  else
    let ab := t.b.position.sub t.a.position
    let ac := t.c.position.sub t.a.position
    let curveAb := t.b.curve.sub t.a.curve
    let curveAc := t.c.curve.sub t.a.curve
    { edges := some (.of t.a.position t.b.position t.c.position (Scalar.sign cross))
      origin
      curve
      dx :=
        { x := (curveAb.x * ac.y - curveAc.x * ab.y) / cross
          y := (curveAb.y * ac.y - curveAc.y * ab.y) / cross }
      dy :=
        { x := (curveAc.x * ab.x - curveAb.x * ac.x) / cross
          y := (curveAc.y * ab.x - curveAb.y * ac.x) / cross }
      fill }

def project (t : Triangle α) (ctx : FrameContext α) : Projection α (TriangleVarying α) :=
  let corners := [t.a.position, t.b.position, t.c.position]
  { rasterBounds := Bounds.hull corners
    devicePositions := corners.map (·.toDevice ctx.viewport)
    varying := t.varying }

def evaluate (t : Triangle α) (v : TriangleVarying α) (p : Point α) (ctx : FrameContext α) :
    Rgba α :=
  match v.edges with
  | none => Rgba.transparent
  | some edges =>
    if !edges.contains p then Rgba.transparent
    else if t.a.contentMask.clips p then Rgba.transparent
    else (v.fill.colorAt p t.a.bounds).fade (v.curveCoverage p) ctx.premultipliedAlpha

def shade (t : Triangle α) (p : Point α) (ctx : FrameContext α) : Rgba α :=
  t.evaluate (t.project ctx).varying p ctx

end Triangle

end Raster
