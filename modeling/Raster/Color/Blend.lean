import Raster.Color.Basic

/-!
# Blending

A contribution is a colour with straight or premultiplied alpha. `fade`
scales its alpha by a coverage, `coveredBy` puts one straight colour on top of
another, and `onto` lays a contribution onto a stored pixel, which is
always premultiplied.
-/

namespace Raster.Rgba

variable {α : Type} [Scalar α]

/-- Scales alpha by a coverage. Premultiplied output scales the colour by the new alpha too. -/
def fade (c : Rgba α) (coverage : α) (premultiplied : Bool) : Rgba α :=
  let alpha := c.a * coverage
  let multiplier := if premultiplied then alpha else 1
  ⟨c.r * multiplier, c.g * multiplier, c.b * multiplier, alpha⟩

/-- The straight colour of `above` on top of `below`. Nothing on top of nothing is transparent
black. -/
def coveredBy (below above : Rgba α) : Rgba α :=
  let alpha := above.a + below.a * (1 - above.a)
  if alpha ≤ 0 then transparent
  else
    let weight := below.a * (1 - above.a)
    { r := (above.r * above.a + below.r * weight) / alpha
      g := (above.g * above.a + below.g * weight) / alpha
      b := (above.b * above.a + below.b * weight) / alpha
      a := alpha }

/-- A straight colour as a buffer stores it: colour channels times alpha. -/
def premultiply (c : Rgba α) : Rgba α := ⟨c.r * c.a, c.g * c.a, c.b * c.a, c.a⟩

/-- Every channel as a buffer holds it after a write. -/
def store (c : Rgba α) : Rgba α :=
  ⟨Scalar.store c.r, Scalar.store c.g, Scalar.store c.b, Scalar.store c.a⟩

/-- The stored pixel after a contribution was laid onto `below`. A contribution whose alpha is
zero or negative leaves the pixel as it is. -/
def onto (c : Rgba α) (premultiplied : Bool) (below : Rgba α) : Rgba α :=
  if c.a ≤ 0 then below
  else
    let rest := 1 - c.a
    let scale := if premultiplied then 1 else c.a
    store
      { r := c.r * scale + below.r * rest
        g := c.g * scale + below.g * rest
        b := c.b * scale + below.b * rest
        a := c.a + below.a * rest }

end Raster.Rgba
