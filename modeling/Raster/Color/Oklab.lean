import Raster.Color.Basic

/-!
# Oklab

The perceptual space in which gradients may be interpolated. Lightness
and the two opponent coordinates sit in the fields `r`, `g`, `b` of
`Rgba`; alpha passes through. A cube root separates two matrices on the
way in, a cube two others on the way out.
-/

namespace Raster.Rgba

variable {α : Type} [Scalar α]

def toOklab (c : Rgba α) : Rgba α :=
  let l := Scalar.cbrt (0.4122214708 * c.r + 0.5363325363 * c.g + 0.0514459929 * c.b)
  let m := Scalar.cbrt (0.2119034982 * c.r + 0.6806995451 * c.g + 0.1073969566 * c.b)
  let s := Scalar.cbrt (0.0883024619 * c.r + 0.2817188376 * c.g + 0.6299787005 * c.b)
  { r := 0.2104542553 * l + 0.793617785 * m - 0.0040720468 * s
    g := 1.9779984951 * l - 2.428592205 * m + 0.4505937099 * s
    b := 0.0259040371 * l + 0.7827717662 * m - 0.808675766 * s
    a := c.a }

def ofOklab (c : Rgba α) : Rgba α :=
  let l := c.r + 0.3963377774 * c.g + 0.2158037573 * c.b
  let m := c.r - 0.1055613458 * c.g - 0.0638541728 * c.b
  let s := c.r - 0.0894841775 * c.g - 1.291485548 * c.b
  let l3 := l * l * l
  let m3 := m * m * m
  let s3 := s * s * s
  { r := 4.0767416621 * l3 - 3.3077115913 * m3 + 0.2309699292 * s3
    g := -1.2684380046 * l3 + 2.6097574011 * m3 - 0.3413193965 * s3
    b := -0.0041960863 * l3 - 0.7034186147 * m3 + 1.707614701 * s3
    a := c.a }

end Raster.Rgba
