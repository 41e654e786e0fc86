import Raster.Color.Oklab
import Raster.Color.Transfer
import Raster.Geometry.Basic

/-!
# Fills

A quad or a path is filled with one colour or with a linear gradient of
two stops. The stops are converted to the interpolation space once per
instance (`Fill.prepare`); each pixel then mixes there and converts the
mix back to linear light (`PreparedFill.colorAt`).

Angles count degrees clockwise from "upward", so 90 runs left to right.
-/

namespace Raster

/-- The space in which the stops of a gradient are mixed. -/
inductive ColorSpace where
  | srgb
  | oklab
  | linear
  deriving Repr, DecidableEq, Inhabited

structure ColorStop (α : Type) where
  color : Hsla α
  /-- Place along the axis, from 0 to 1. -/
  position : α
  deriving Repr, DecidableEq, Inhabited

/-- Two stops on an axis; the first is meant not to lie beyond the second. -/
structure LinearGradient (α : Type) where
  angle : α
  first : ColorStop α
  last : ColorStop α
  space : ColorSpace
  deriving Repr, DecidableEq, Inhabited

inductive Fill (α : Type) where
  | solid (color : Hsla α)
  | linear (gradient : LinearGradient α)
  deriving Repr, DecidableEq, Inhabited

/-- A gradient whose stop colours are already in the interpolation space. -/
structure PreparedGradient (α : Type) where
  angle : α
  firstColor : Rgba α
  lastColor : Rgba α
  firstPosition : α
  lastPosition : α
  space : ColorSpace
  deriving Repr, DecidableEq, Inhabited

inductive PreparedFill (α : Type) where
  | solid (color : Rgba α)
  | linear (gradient : PreparedGradient α)
  deriving Repr, DecidableEq, Inhabited

variable {α : Type} [Scalar α]

namespace ColorSpace

/-- From linear light into the space. -/
def enter (space : ColorSpace) (c : Rgba α) : Rgba α :=
  match space with
  | srgb => c.encode
  | oklab => c.toOklab
  | linear => c

/-- From the space back to linear light. -/
def leave (space : ColorSpace) (c : Rgba α) : Rgba α :=
  match space with
  | srgb => c.decode
  | oklab => c.ofOklab
  | linear => c

end ColorSpace

def Fill.prepare : Fill α → PreparedFill α
  | solid color => .solid color.toLinear
  | linear g => .linear
    { angle := g.angle
      firstColor := g.space.enter g.first.color.toLinear
      lastColor := g.space.enter g.last.color.toLinear
      firstPosition := g.first.position
      lastPosition := g.last.position
      space := g.space }

/-- Lengths, extents and spans below this one are replaced by it before they divide. -/
def gradientEpsilon : α := 1e-6

/-- The direction of a gradient in a rectangle: the direction of the angle, compressed along the
shorter side so that the gradient spans the whole shape. -/
def gradientDirection (angle : α) (size : Size α) : Point α :=
  let radians := (Scalar.rem angle 360 - 90) * Scalar.pi / 180
  let x := Scalar.cos radians
  let y := Scalar.sin radians
  if size.height < size.width then ⟨x, y * (size.height / size.width)⟩
  else ⟨x * (size.width / max size.height gradientEpsilon), y⟩

/-- How far along the axis a point lies, before the stops are looked at: 0 to 1 across the
rectangle, along the side that dominates the direction. -/
def gradientAxis (angle : α) (p : Point α) (bounds : Bounds α) : α :=
  let dir := gradientDirection angle bounds.size
  let halfWidth := bounds.size.width / 2
  let halfHeight := bounds.size.height / 2
  let toPointX := p.x - (bounds.origin.x + halfWidth)
  let toPointY := p.y - (bounds.origin.y + halfHeight)
  let length := max (Scalar.hypot dir.x dir.y) gradientEpsilon
  let along := (toPointX * dir.x + toPointY * dir.y) / length
  if Scalar.abs dir.y < Scalar.abs dir.x then
    (along + halfWidth) / max bounds.size.width gradientEpsilon
  else (along + halfHeight) / max bounds.size.height gradientEpsilon

/-- The distance between two stops, kept away from zero without changing its sign. -/
def gradientSpan (first last : α) : α :=
  let span := last - first
  if Scalar.abs span < gradientEpsilon then
    if span < 0 then -gradientEpsilon else gradientEpsilon
  else span

/-- The mixing parameter at a point, from 0 at the first stop to 1 at the last. -/
def gradientParameter (angle first last : α) (p : Point α) (bounds : Bounds α) : α :=
  saturate ((gradientAxis angle p bounds - first) / gradientSpan first last)

/-- The colour of a fill at a point, in linear light with straight alpha. -/
def PreparedFill.colorAt (fill : PreparedFill α) (p : Point α) (bounds : Bounds α) : Rgba α :=
  match fill with
  | solid color => color
  | linear g =>
    let t := gradientParameter g.angle g.firstPosition g.lastPosition p bounds
    g.space.leave (g.firstColor.lerp g.lastColor t)

end Raster
