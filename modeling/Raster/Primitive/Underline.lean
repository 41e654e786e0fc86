import Raster.Color.Blend
import Raster.Color.Transfer
import Raster.Primitive.Basic

/-!
# Underlines

Straight underlines are flat bars as tall as they are thick. Wavy ones
follow a fixed sine wave in a band that is taller by the wave's amplitude
on both sides.
-/

namespace Raster

structure Underline (α : Type) extends Placement α where
  color : Hsla α
  thickness : α
  wavy : Bool
  deriving Repr, DecidableEq, Inhabited

structure UnderlineVarying (α : Type) where
  color : Rgba α
  /-- What the underline covers. -/
  band : Bounds α
  deriving Repr, DecidableEq, Inhabited

variable {α : Type} [Scalar α]

namespace Underline

def waveAmplitude : α := 1.5

def wavePeriod : α := 6

/-- The upper edge of the wave below the top of the band, at `x` from the start. -/
def waveTop (x : α) : α :=
  waveAmplitude + waveAmplitude * Scalar.sin (2 * Scalar.pi * x / wavePeriod)

/-- What the underline covers: as tall as it is thick, with room for the wave of a wavy one. -/
def band (u : Underline α) : Bounds α :=
  let thickness := max u.thickness 0
  if u.wavy then
    { origin := ⟨u.bounds.origin.x, u.bounds.origin.y - waveAmplitude⟩
      size := ⟨u.bounds.size.width, thickness + 2 * waveAmplitude⟩ }
  else { origin := u.bounds.origin, size := ⟨u.bounds.size.width, thickness⟩ }

/-- Coverage of the wave at a position in the band. -/
def waveCoverage (thickness x y : α) : α :=
  let half := max thickness 0 / 2
  let distance := y - half - waveTop x
  saturate (half - Scalar.abs distance + 0.5)

def project (u : Underline α) (ctx : FrameContext α) : Projection α (UnderlineVarying α) :=
  let band := u.band
  { rasterBounds := band
    devicePositions := band.devicePositions ctx.viewport
    varying := { color := u.color.toLinear, band } }

def evaluate (u : Underline α) (v : UnderlineVarying α) (p : Point α) (ctx : FrameContext α) :
    Rgba α :=
  if u.contentMask.clips p || !v.band.contains p then Rgba.transparent
  else if u.wavy then
    let coverage := waveCoverage u.thickness (p.x - v.band.origin.x) (p.y - v.band.origin.y)
    if coverage ≤ 0 then Rgba.transparent else v.color.fade coverage ctx.premultipliedAlpha
  else v.color.fade 1 ctx.premultipliedAlpha

def shade (u : Underline α) (p : Point α) (ctx : FrameContext α) : Rgba α :=
  u.evaluate (u.project ctx).varying p ctx

end Underline

end Raster
