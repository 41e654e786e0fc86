import Raster.Color.Transfer
import Raster.Geometry.Basic

/-!
# Textures

A texture is a grid of texels. A monochrome one has a single coverage
channel, a polychrome one linear light and alpha; colour bytes are decoded
when the texture is made, so that filtering mixes linear light.
`Texture.sample` filters bilinearly and repeats the edge texels outside
the grid.
-/

namespace Raster

inductive TextureKind where
  | monochrome
  | polychrome
  deriving Repr, DecidableEq, Inhabited

namespace TextureKind

/-- Numbers stored for each texel. -/
def channels : TextureKind → Nat
  | monochrome => 1
  | polychrome => 4

end TextureKind

structure Texture (α : Type) where
  kind : TextureKind
  width : Nat
  height : Nat
  texels : Array α
  width_pos : 0 < width
  height_pos : 0 < height
  size_texels : texels.size = width * height * kind.channels

inductive TextureError (α : Type) where
  | badDimensions (width height : α)
  | badLength (actual width height : Nat) (kind : TextureKind)
  deriving Repr, DecidableEq

namespace Texture

variable {α : Type} [Scalar α]

/-- The stored number for the byte at a position of the pixel data. Colour bytes are encoded sRGB;
alpha and coverage are plain fractions. -/
def texelOfByte (kind : TextureKind) (position : Nat) (byte : UInt8) : α :=
  let fraction : α := Scalar.ofNat byte.toNat / 255
  match kind with
  | .monochrome => Scalar.store fraction
  | .polychrome =>
    if position % 4 = 3 then Scalar.store fraction else Scalar.store (decodeChannel fraction)

/-- A texture from its bytes, row by row. -/
def ofBytes (kind : TextureKind) (width height : α) (bytes : List UInt8) :
    Except (TextureError α) (Texture α) :=
  match Scalar.toInt? width, Scalar.toInt? height with
  | some (.ofNat (w + 1)), some (.ofNat (h + 1)) =>
    if size_eq : bytes.length = (w + 1) * (h + 1) * kind.channels then
      .ok
        { kind
          width := w + 1
          height := h + 1
          texels := (bytes.mapIdx (texelOfByte kind)).toArray
          width_pos := w.succ_pos
          height_pos := h.succ_pos
          size_texels := by simp [size_eq] }
    else .error (.badLength bytes.length (w + 1) (h + 1) kind)
  | _, _ => .error (.badDimensions width height)

theorem kind_of_ofBytes {kind : TextureKind} {width height : α} {bytes : List UInt8}
    {t : Texture α} (h : ofBytes kind width height bytes = .ok t) : t.kind = kind := by
  unfold ofBytes at h
  split at h
  · split at h
    · cases h
      rfl
    · cases h
  · cases h

def dimensions (t : Texture α) : Size α := ⟨Scalar.ofNat t.width, Scalar.ofNat t.height⟩

/-- An index moved into a row or column of texels. -/
def clampIndex (index : Int) (extent : Nat) : Nat := Nat.min index.toNat (extent - 1)

def texel (t : Texture α) (column row channel : Nat) : α :=
  t.texels[(row * t.width + column) * t.kind.channels + channel]?.getD 0

/-- One channel, filtered: `x` and `y` count texels from the centre of the first one. -/
def filtered (t : Texture α) (x y : α) (channel : Nat) : α :=
  let column := Scalar.floor x
  let row := Scalar.floor y
  let left := clampIndex (Scalar.toInt column) t.width
  let right := clampIndex (Scalar.toInt column + 1) t.width
  let top := clampIndex (Scalar.toInt row) t.height
  let bottom := clampIndex (Scalar.toInt row + 1) t.height
  let upper := lerp (t.texel left top channel) (t.texel right top channel) (x - column)
  let lower := lerp (t.texel left bottom channel) (t.texel right bottom channel) (x - column)
  lerp upper lower (y - row)

/-- The colour at a position given as a fraction of the texture's size. A monochrome texture
reports its coverage in every channel. -/
def sample (t : Texture α) (uv : Point α) : Rgba α :=
  let channel := t.filtered (uv.x * Scalar.ofNat t.width - 0.5)
    (uv.y * Scalar.ofNat t.height - 0.5)
  match t.kind with
  | .monochrome => ⟨channel 0, channel 0, channel 0, channel 0⟩
  | .polychrome => ⟨channel 0, channel 1, channel 2, channel 3⟩

end Texture

end Raster
