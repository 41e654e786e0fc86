import Raster.Color.Blend
import Raster.Geometry.Distance
import Raster.Primitive.Basic

/-!
# Sprites

Rectangles filled from a tile of an atlas texture: monochrome ones, whose
texels are the coverage of a glyph in one colour, and polychrome ones,
which are pictures. A monochrome sprite carries a transformation; a pixel
is mapped back through its inverse to find the texel and to test the clip,
which belongs to the sprite's own space.
-/

namespace Raster

/-- A rectangle of a texture, in texels. -/
structure Tile (α : Type) where
  texture : TextureRef α
  bounds : Bounds α
  deriving Repr, DecidableEq, Inhabited

structure MonochromeSprite (α : Type) extends Placement α where
  color : Hsla α
  tile : Tile α
  transformation : Transformation α
  deriving Repr, DecidableEq, Inhabited

structure PolychromeSprite (α : Type) extends Placement α where
  /-- Looked at only when sprites have round corners. -/
  cornerRadii : Corners α
  tile : Tile α
  grayscale : Bool
  opacity : α
  deriving Repr, DecidableEq, Inhabited

/-- A texture found in the atlas for an instance. -/
structure BoundTexture (α : Type) where
  ref : TextureRef α
  texture : Texture α

structure MonochromeVarying (α : Type) where
  color : Rgba α
  texture : Option (BoundTexture α)
  /-- From the frame back into the sprite's own space. -/
  inverse : Option (Transformation α)

structure PolychromeVarying (α : Type) where
  texture : Option (BoundTexture α)

variable {α : Type} [Scalar α]

/-- Extents below this one are replaced by it before they divide. -/
def minExtent : α := 1e-6

namespace Tile

/-- A position in the unit square as a fraction of the whole texture. -/
def uv (tile : Tile α) (unit : Point α) (textureSize : Size α) : Point α :=
  ⟨(tile.bounds.origin.x + unit.x * tile.bounds.size.width) / max textureSize.width minExtent,
   (tile.bounds.origin.y + unit.y * tile.bounds.size.height) / max textureSize.height minExtent⟩

omit [Scalar α] in
def bind (tile : Tile α) (atlas : Option (Atlas α)) : Option (BoundTexture α) := do
  let texture ← (← atlas).find? tile.texture
  return ⟨tile.texture, texture⟩

/-- The texel colour for a position in the unit square. -/
def sample (tile : Tile α) (bound : BoundTexture α) (unit : Point α) : Rgba α :=
  bound.texture.sample (tile.uv unit bound.texture.dimensions)

end Tile

/-- A position as a fraction of a rectangle. -/
def Bounds.toUnit (b : Bounds α) (p : Point α) : Point α :=
  ⟨(p.x - b.origin.x) / max b.size.width minExtent,
   (p.y - b.origin.y) / max b.size.height minExtent⟩

/-- Membership of the unit square, without its right and bottom sides. -/
def Point.inUnitSquare (p : Point α) : Bool :=
  0 ≤ p.x && p.x < 1 && 0 ≤ p.y && p.y < 1

namespace MonochromeSprite

def corners (s : MonochromeSprite α) : List (Point α) :=
  unitCorners.map fun unit => s.transformation.apply (s.bounds.place unit)

def project (s : MonochromeSprite α) (ctx : FrameContext α) :
    Projection α (MonochromeVarying α) where
  rasterBounds := if s.transformation.isIdentity then s.bounds else Bounds.hull s.corners
  devicePositions := s.corners.map (·.toDevice ctx.viewport)
  varying :=
    { color := s.color.toLinear
      texture := s.tile.bind ctx.atlas
      inverse := s.transformation.inverse? }

def evaluate (s : MonochromeSprite α) (v : MonochromeVarying α) (p : Point α)
    (ctx : FrameContext α) : Rgba α :=
  match v.texture, v.inverse with
  | some texture, some inverse =>
    let own := inverse.apply p
    let unit := s.bounds.toUnit own
    if !unit.inUnitSquare || s.contentMask.clips own then Rgba.transparent
    else v.color.fade (s.tile.sample texture unit).r ctx.premultipliedAlpha
  | _, _ => Rgba.transparent

def shade (s : MonochromeSprite α) (p : Point α) (ctx : FrameContext α) : Rgba α :=
  s.evaluate (s.project ctx).varying p ctx

end MonochromeSprite

/-- The gray of the same luminance. -/
def Rgba.toGray (c : Rgba α) : Rgba α :=
  let luma := c.r * 0.2126 + c.g * 0.7152 + c.b * 0.0722
  ⟨luma, luma, luma, c.a⟩

namespace PolychromeSprite

def project (s : PolychromeSprite α) (ctx : FrameContext α) :
    Projection α (PolychromeVarying α) where
  rasterBounds := s.bounds
  devicePositions := s.bounds.devicePositions ctx.viewport
  varying := { texture := s.tile.bind ctx.atlas }

/-- How much of the sprite shows at a point inside it. -/
def coverage (s : PolychromeSprite α) (p : Point α) (ctx : FrameContext α) : α :=
  if ctx.roundSpriteCorners then
    s.opacity * saturate (0.5 - s.bounds.roundedDistance s.cornerRadii p)
  else s.opacity

def evaluate (s : PolychromeSprite α) (v : PolychromeVarying α) (p : Point α)
    (ctx : FrameContext α) : Rgba α :=
  match v.texture with
  | none => Rgba.transparent
  | some texture =>
    let unit := s.bounds.toUnit p
    if !unit.inUnitSquare || s.contentMask.clips p then Rgba.transparent
    else
      let sample := s.tile.sample texture unit
      (if s.grayscale then sample.toGray else sample).fade (s.coverage p ctx)
        ctx.premultipliedAlpha

def shade (s : PolychromeSprite α) (p : Point α) (ctx : FrameContext α) : Rgba α :=
  s.evaluate (s.project ctx).varying p ctx

end PolychromeSprite

end Raster
