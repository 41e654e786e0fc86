import Raster.Color.Blend
import Raster.Color.Transfer
import Raster.Geometry.Distance
import Raster.Primitive.Basic

/-!
# Shadows

Rounded rectangles under a Gaussian blur. The blur is separated: along x
it is the difference of two error functions, one for each end of the row;
along y it is sampled at the midpoints of equal steps, over the part of
the three-sigma window that meets the shape.
-/

namespace Raster

structure Shadow (α : Type) extends Placement α where
  cornerRadii : Corners α
  blurRadius : α
  color : Hsla α
  deriving Repr, DecidableEq, Inhabited

structure ShadowVarying (α : Type) where
  color : Rgba α
  deriving Repr, DecidableEq, Inhabited

variable {α : Type} [Scalar α]

/-- A rational approximation of the error function, odd and off by less than 0.0005. -/
def erf (v : α) : α :=
  let s := Scalar.sign v
  let a := Scalar.abs v
  let r := 1 + (0.278393 + (0.230389 + (0.000972 + 0.078108 * a) * a) * a) * a
  let r2 := r * r
  s - s / (r2 * r2)

/-- The normal density with standard deviation `sigma`. -/
def gaussian (x sigma : α) : α :=
  Scalar.exp (-(x * x) / (2 * sigma * sigma)) / (Scalar.sqrt (2 * Scalar.pi) * sigma)

/-- Half the width of a rounded rectangle's row at height `y` above or below the centre. -/
def rowHalfWidth (y radius halfWidth halfHeight : α) : α :=
  let delta := min (halfHeight - radius - Scalar.abs y) 0
  halfWidth - radius + Scalar.sqrt (max 0 (radius * radius - delta * delta))

/-- The blur along x of a rounded rectangle's row, at `x` from its middle. -/
def blurredRow (x y sigma radius halfWidth halfHeight : α) : α :=
  let half := rowHalfWidth y radius halfWidth halfHeight
  let scale := Scalar.sqrt 0.5 / sigma
  let low := 0.5 + 0.5 * erf ((x - half) * scale)
  let high := 0.5 + 0.5 * erf ((x + half) * scale)
  high - low

namespace Shadow

/-- A shadow with a smaller blur is a plain rounded rectangle. -/
def minBlurRadius : α := 1e-4

/-- How far the blur reaches, in blur radii. -/
def blurExtent : α := 3

/-- Adds up `count` samples of the vertical blur, from height `y` on in steps of `step`. -/
def sumSamples (row : α → α) (sigma step : α) : (count : Nat) → (y sum : α) → α
  | 0, _, sum => sum
  | count + 1, y, sum =>
    sumSamples row sigma step count (y + step) (sum + row y * gaussian y sigma * step)

/-- The part of the shape that the shadow covers at a point, before the colour's own alpha. The
number of samples may be any number: a sample is taken for each natural number below it. -/
def coverage (s : Shadow α) (p : Point α) (samples : α) : α :=
  let sigma := s.blurRadius
  if sigma < minBlurRadius then saturate (0.5 - s.bounds.roundedDistance s.cornerRadii p)
  else
    let halfWidth := s.bounds.size.width / 2
    let halfHeight := s.bounds.size.height / 2
    let fromCenter := p.sub s.bounds.center
    let radius := s.cornerRadii.radiusAt fromCenter
    let low := fromCenter.y - halfHeight
    let high := fromCenter.y + halfHeight
    let start := min (max (-blurExtent * sigma) low) high
    let stop := min (max (blurExtent * sigma) low) high
    let step := (stop - start) / samples
    let row (y : α) : α :=
      blurredRow fromCenter.x (fromCenter.y - y) sigma radius halfWidth halfHeight
    sumSamples row sigma step ((Scalar.natCeil? samples).getD 0) (start + step * 0.5) 0

def project (s : Shadow α) (ctx : FrameContext α) : Projection α (ShadowVarying α) :=
  let margin := blurExtent * max s.blurRadius 0
  let reach := s.bounds.expand margin margin
  { rasterBounds := reach
    devicePositions := reach.devicePositions ctx.viewport
    varying := { color := s.color.toLinear } }

def evaluate (s : Shadow α) (v : ShadowVarying α) (p : Point α) (ctx : FrameContext α) : Rgba α :=
  if s.contentMask.clips p then Rgba.transparent
  else v.color.fade (s.coverage p (Scalar.ofNat ctx.shadowSamples)) ctx.premultipliedAlpha

def shade (s : Shadow α) (p : Point α) (ctx : FrameContext α) : Rgba α :=
  s.evaluate (s.project ctx).varying p ctx

end Shadow

end Raster
