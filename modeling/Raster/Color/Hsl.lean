import Raster.Color.Basic

/-!
# Hue, saturation, lightness

Both directions between `Hsla` and encoded sRGB. The hue is wrapped onto
one turn and scaled to six sextants; in each of them one channel holds the
largest value, one the smallest, and one runs between.
-/

namespace Raster

variable {α : Type} [Scalar α]

/-- The fraction of a turn in [0, 1). A hue so little below zero that the subtraction rounds up
to a whole turn wraps to 0. -/
def wrapHue (h : α) : α :=
  let wrapped := h - Scalar.floor h
  if 1 ≤ wrapped then 0 else wrapped

/-- The encoded sRGB colour: chroma `c`, the running channel `x`, and the smallest channel `m`
placed by sextant. -/
def Hsla.toSrgb (color : Hsla α) : Rgba α :=
  let h := wrapHue color.h * 6
  let c := (1 - Scalar.abs (2 * color.l - 1)) * color.s
  let x := c * (1 - Scalar.abs (Scalar.rem h 2 - 1))
  let m := color.l - c / 2
  if 0 ≤ h ∧ h < 1 then ⟨m + c, m + x, m, color.a⟩
  else if 1 ≤ h ∧ h < 2 then ⟨m + x, m + c, m, color.a⟩
  else if 2 ≤ h ∧ h < 3 then ⟨m, m + c, m + x, color.a⟩
  else if 3 ≤ h ∧ h < 4 then ⟨m, m + x, m + c, color.a⟩
  else if 4 ≤ h ∧ h < 5 then ⟨m + x, m, m + c, color.a⟩
  else ⟨m + c, m, m + x, color.a⟩

/-- Reads an encoded sRGB colour back. A gray has hue and saturation 0; where two channels tie for
the largest, red goes before green and green before blue. -/
def Hsla.ofSrgb (color : Rgba α) : Hsla α :=
  let largest := max (max color.r color.g) color.b
  let smallest := min (min color.r color.g) color.b
  let delta := largest - smallest
  let l := (largest + smallest) / 2
  if delta == 0 then ⟨0, 0, l, color.a⟩
  else
    let s := if 0.5 < l then delta / (2 - largest - smallest) else delta / (largest + smallest)
    let h :=
      if largest == color.r then
        (color.g - color.b) / delta + (if color.g < color.b then 6 else 0)
      else if largest == color.g then (color.b - color.r) / delta + 2
      else (color.r - color.g) / delta + 4
    ⟨h / 6, s, l, color.a⟩

end Raster
