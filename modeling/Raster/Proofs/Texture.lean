import Raster.Scalar.Real
import Raster.Atlas.Texture

/-!
# Texels

A texture of natural size holds, for each byte it was made from, the number
that the byte stands for (`Texture.texel_eq_texelOfByte`). In exact arithmetic
sampling at the centre of a texel gives the texel (`Texture.sample_center`):
the position is whole, so the two weights of the neighbours are zero. And
filtering stays between the smallest and the largest texel
(`Texture.filtered_mem`), as no texel is read that is not there.
-/

namespace Raster

namespace Texture

/-! ## Bytes -/

/-- Bytes of the right length make a texture of a size that is whole. -/
theorem ofBytes_of_toInt? {α : Type} [Scalar α] (kind : TextureKind) {width height : α} {w h : Nat}
    (hwidth : Scalar.toInt? width = some (w : Int))
    (hheight : Scalar.toInt? height = some (h : Int)) (hw : 0 < w) (hh : 0 < h)
    {bytes : List UInt8} (hbytes : bytes.length = w * h * kind.channels) :
    ∃ t, ofBytes kind width height bytes = .ok t
      ∧ t.kind = kind ∧ t.width = w ∧ t.height = h
      ∧ t.texels = (bytes.mapIdx (texelOfByte kind)).toArray := by
  obtain ⟨w, rfl⟩ := Nat.exists_eq_succ_of_ne_zero hw.ne'
  obtain ⟨h, rfl⟩ := Nat.exists_eq_succ_of_ne_zero hh.ne'
  refine ⟨⟨kind, w + 1, h + 1, (bytes.mapIdx (texelOfByte kind)).toArray, w.succ_pos, h.succ_pos,
    by simp [hbytes]⟩, ?_, rfl, rfl, rfl, rfl⟩
  unfold ofBytes
  rw [hwidth, hheight]
  exact dif_pos hbytes

/-- A texel is what its byte stands for. -/
theorem texel_eq_texelOfByte {t : Texture ℝ} {bytes : List UInt8}
    (ht : t.texels = (bytes.mapIdx (texelOfByte t.kind)).toArray) {column row channel : Nat}
    {byte : UInt8}
    (hbyte : bytes[(row * t.width + column) * t.kind.channels + channel]? = some byte) :
    t.texel column row channel
      = texelOfByte t.kind ((row * t.width + column) * t.kind.channels + channel) byte := by
  unfold texel
  rw [ht, List.getElem?_toArray, List.getElem?_mapIdx, hbyte]
  rfl

/-! ## Sampling -/

/-- The colour of a texture whose stored channels have some values. -/
def colorOf {α : Type} (t : Texture α) (channel : Nat → α) : Rgba α :=
  match t.kind with
  | .monochrome => ⟨channel 0, channel 0, channel 0, channel 0⟩
  | .polychrome => ⟨channel 0, channel 1, channel 2, channel 3⟩

theorem sample_eq (t : Texture ℝ) (uv : Point ℝ) :
    t.sample uv = t.colorOf (t.filtered (uv.x * t.width - 1 / 2) (uv.y * t.height - 1 / 2)) := by
  have hhalf : (0.5 : ℝ) = 1 / 2 := by norm_num
  rw [← hhalf]
  rfl

theorem clampIndex_of_lt {index extent : Nat} (h : index < extent) :
    clampIndex index extent = index := by
  rw [clampIndex, Int.toNat_natCast]
  exact Nat.min_eq_left (by omega)

theorem clampIndex_of_nonpos {index : Int} (h : index ≤ 0) (extent : Nat) :
    clampIndex index extent = 0 := by
  rw [clampIndex, Int.toNat_of_nonpos h]
  exact Nat.zero_min _

theorem clampIndex_of_ge {index : Int} {extent : Nat} (h : (extent : Int) ≤ index + 1) :
    clampIndex index extent = extent - 1 :=
  Nat.min_eq_right (by omega)

theorem clampIndex_lt (index : Int) {extent : Nat} (h : 0 < extent) :
    clampIndex index extent < extent :=
  (Nat.min_le_right ..).trans_lt (Nat.sub_lt h Nat.one_pos)

theorem filtered_mem {t : Texture ℝ} {channel : Nat} {low high : ℝ}
    (h : ∀ column row, column < t.width → row < t.height →
      t.texel column row channel ∈ Set.Icc low high) (x y : ℝ) :
    t.filtered x y channel ∈ Set.Icc low high := by
  have hfraction (v : ℝ) : v - Scalar.floor v ∈ Set.Icc (0 : ℝ) 1 :=
    ⟨Int.fract_nonneg v, (Int.fract_lt_one v).le⟩
  have htexel (column row : Int) :
      t.texel (clampIndex column t.width) (clampIndex row t.height) channel ∈ Set.Icc low high :=
    h _ _ (clampIndex_lt column t.width_pos) (clampIndex_lt row t.height_pos)
  exact lerp_mem (lerp_mem (htexel ..) (htexel ..) (hfraction x))
    (lerp_mem (htexel ..) (htexel ..) (hfraction x)) (hfraction y)

theorem filtered_natCast (t : Texture ℝ) {column row : Nat} (hcolumn : column < t.width)
    (hrow : row < t.height) (channel : Nat) :
    t.filtered (column : ℝ) (row : ℝ) channel = t.texel column row channel := by
  have hfloor (n : ℕ) : Scalar.floor (n : ℝ) = n := by
    show ((⌊(n : ℝ)⌋ : ℤ) : ℝ) = n
    rw [Int.floor_natCast, Int.cast_natCast]
  have hzero (n : ℕ) : (n : ℝ) - n = 0 := sub_self _
  unfold filtered
  dsimp only
  rw [hfloor, hfloor, Scalar.toInt_natCast, Scalar.toInt_natCast, clampIndex_of_lt hcolumn,
    clampIndex_of_lt hrow]
  rw [hzero, hzero, lerp_zero, lerp_zero]

/-- A texture, sampled where its size makes the centre of a texel of the position, gives the
texel. -/
theorem sample_center {t : Texture ℝ} {uv : Point ℝ} {column row : Nat}
    (hcolumn : column < t.width) (hrow : row < t.height)
    (hx : uv.x * t.width - 1 / 2 = column) (hy : uv.y * t.height - 1 / 2 = row) :
    t.sample uv = t.colorOf (t.texel column row) := by
  rw [sample_eq, hx, hy]
  exact congrArg t.colorOf (funext fun channel => filtered_natCast t hcolumn hrow channel)

end Texture

end Raster
