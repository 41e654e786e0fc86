import Raster.Color.Blend
import Raster.Fill
import Raster.Geometry.Distance
import Raster.Primitive.Basic

/-!
# Quads

Filled rectangles with rounded corners and a border. Coverage comes from
two signed distances, measured in the quadrant of the pixel: the outer one
to the rounded outline, the inner one to the inside edge of the border.
The border is mixed over the fill along the inner ramp, and the whole is
faded along the outer ramp, each one pixel wide.

Two short cuts need no distances: a quad without radii and borders is flat
inside its bounds, and so is the interior of any quad away from its border
and its rounded corners (`QuadCorner.isInterior`).
-/

namespace Raster

structure Quad (α : Type) extends Placement α where
  fill : Fill α
  borderColor : Hsla α
  cornerRadii : Corners α
  borderWidths : Edges α
  deriving Repr, DecidableEq, Inhabited

structure QuadVarying (α : Type) where
  fill : PreparedFill α
  borderColor : Rgba α
  /-- Without radii and borders. -/
  isPlain : Bool
  deriving Repr, DecidableEq, Inhabited

/-- A pixel seen from the corner of its quadrant. -/
structure QuadCorner (α : Type) where
  radius : α
  /-- Widths of the two sides that meet here; a missing border is pulled outward, so that its
  ramp never shows. -/
  border : Point α
  /-- From the corner of the bounds. -/
  fromCorner : Point α
  deriving Repr, DecidableEq, Inhabited

variable {α : Type} [Scalar α]

/-- Half the width of an anti-aliasing ramp. -/
def rampHalf : α := 0.5

/-- A border width, or one that keeps a missing border out of sight. -/
def effectiveBorder (width : α) : α := if width == 0 then -rampHalf else width

namespace QuadCorner

def fromCircle (c : QuadCorner α) : Point α :=
  ⟨c.fromCorner.x + c.radius, c.fromCorner.y + c.radius⟩

/-- From the corner inside the two straight borders. -/
def fromInner (c : QuadCorner α) : Point α :=
  ⟨c.fromCorner.x + c.border.x, c.fromCorner.y + c.border.y⟩

/-- Whether the pixel is clear of the border and of the rounded corner. -/
def isInterior (c : QuadCorner α) : Bool :=
  c.fromInner.x < -rampHalf && c.fromInner.y < -rampHalf
    && !(0 ≤ c.fromCircle.x && 0 ≤ c.fromCircle.y)

/-- Distance to the rounded outline, negative inside. -/
def outer (c : QuadCorner α) : α := cornerDistance c.fromCircle c.radius

/-- Distance to the inside edge of the border, positive in the fill: along a straight side, past
the border on either axis, in a corner between equal borders, whose inside edge is a circle, and
in a corner between different ones, where it is an ellipse. -/
def inner (c : QuadCorner α) : α :=
  if c.fromCircle.x ≤ 0 ∨ c.fromCircle.y ≤ 0 then -max c.fromInner.x c.fromInner.y
  else if 0 < c.fromInner.x ∨ 0 < c.fromInner.y then -1
  else if c.border.x == c.border.y then -(c.outer + c.border.x)
  else ellipseDistance c.fromCircle ⟨max 0 (c.radius - c.border.x), max 0 (c.radius - c.border.y)⟩

/-- The fill with the border mixed over it along the inner ramp. -/
def mixBorder (c : QuadCorner α) (fill border : Rgba α) : Rgba α :=
  if max c.inner c.outer < rampHalf then
    fill.lerp (fill.coveredBy border) (saturate (rampHalf - c.inner))
  else fill

/-- The colour by distances: fill and border, faded along the outer ramp. -/
def colorByDistance (c : QuadCorner α) (fill border : Rgba α) (premultiplied : Bool) : Rgba α :=
  (c.mixBorder fill border).fade (saturate (rampHalf - c.outer)) premultiplied

end QuadCorner

namespace Quad

def isPlain (q : Quad α) : Bool :=
  let r := q.cornerRadii
  let b := q.borderWidths
  r.topLeft == 0 && r.topRight == 0 && r.bottomRight == 0 && r.bottomLeft == 0
    && b.top == 0 && b.right == 0 && b.bottom == 0 && b.left == 0

/-- The corner of the quadrant in which a point lies. -/
def corner (q : Quad α) (p : Point α) : QuadCorner α :=
  let fromCenter := p.sub q.bounds.center
  { radius := q.cornerRadii.radiusAt fromCenter
    border :=
      { x := effectiveBorder (if fromCenter.x < 0 then q.borderWidths.left else q.borderWidths.right)
        y := effectiveBorder
          (if fromCenter.y < 0 then q.borderWidths.top else q.borderWidths.bottom) }
    fromCorner := q.bounds.beyondCorner fromCenter }

def project (q : Quad α) (ctx : FrameContext α) : Projection α (QuadVarying α) where
  rasterBounds := q.bounds
  devicePositions := q.bounds.devicePositions ctx.viewport
  varying :=
    { fill := q.fill.prepare
      borderColor := q.borderColor.toLinear
      isPlain := q.isPlain }

def evaluate (q : Quad α) (v : QuadVarying α) (p : Point α) (ctx : FrameContext α) : Rgba α :=
  if q.contentMask.clips p then Rgba.transparent
  else
    let fill := v.fill.colorAt p q.bounds
    if v.isPlain then
      if q.bounds.contains p then fill.fade 1 ctx.premultipliedAlpha else Rgba.transparent
    else
      let corner := q.corner p
      if corner.isInterior then fill.fade 1 ctx.premultipliedAlpha
      else corner.colorByDistance fill v.borderColor ctx.premultipliedAlpha

def shade (q : Quad α) (p : Point α) (ctx : FrameContext α) : Rgba α :=
  q.evaluate (q.project ctx).varying p ctx

end Quad

end Raster
