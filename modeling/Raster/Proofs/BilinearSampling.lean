import Raster.Scalar.Real
import Mathlib.Algebra.BigOperators.Group.Finset.Basic
import Raster.Atlas.Basic
import Raster.Proofs.Texture

/-!
# Bilinear sampling

A sample of a texture is the sum of all texels, each counted by how near it
is in its row and in its column (`Texture.bilinear`), at the place of the
grid that is nearest to the position (`Atlas.sample_is_bilinear`).

The position is rounded down to a texel before it is moved into the grid,
and the weights of the two neighbours are those of the position outside. Along
one axis this makes no difference (`lerp_clampIndex`): beyond an end both
neighbours are the texel at that end, whatever their weights. One row of
texels and one column of such rows make the grid.

That each texel is there to be read is said by a second form of sampling,
whose reads may fail and never do (`Texture.sample?_eq`).
-/

namespace Raster

/-! ## Between the values of a row -/

/-- How much a value counts at a distance: in full at its place, and nothing from its neighbours'
places on. -/
noncomputable def tent (distance : ℝ) : ℝ := max 0 (1 - |distance|)

/-- The first `n` values of `f`, at the places 0 to `n - 1` of a line, joined by straight lines. -/
noncomputable def interpolate (f : ℕ → ℝ) (n : ℕ) (x : ℝ) : ℝ :=
  ∑ i ∈ Finset.range n, tent (x - i) * f i

/-- The place from 0 to `n - 1` that is nearest to a number. -/
noncomputable def nearest (n : ℕ) (x : ℝ) : ℝ := max 0 (min x (n - 1))

theorem tent_eq_zero {distance : ℝ} (h : distance ≤ -1 ∨ 1 ≤ distance) : tent distance = 0 := by
  refine max_eq_left (sub_nonpos.mpr (le_abs.mpr ?_))
  rcases h with h | h
  · exact .inr (by linarith)
  · exact .inl h

theorem tent_of_nonneg {distance : ℝ} (hlow : 0 ≤ distance) (hhigh : distance ≤ 1) :
    tent distance = 1 - distance := by
  rw [tent, abs_of_nonneg hlow]
  exact max_eq_right (sub_nonneg.mpr hhigh)

theorem tent_of_nonpos {distance : ℝ} (hlow : -1 ≤ distance) (hhigh : distance ≤ 0) :
    tent distance = 1 + distance := by
  rw [tent, abs_of_nonpos hhigh, sub_neg_eq_add]
  exact max_eq_right (by linarith)

theorem interpolate_natCast (f : ℕ → ℝ) {n i : ℕ} (hi : i < n) : interpolate f n i = f i := by
  rw [interpolate, Finset.sum_eq_single_of_mem i (Finset.mem_range.mpr hi)]
  · rw [sub_self, tent_of_nonneg le_rfl zero_le_one, sub_zero, one_mul]
  · intro j _ hj
    have hfar : ((i : ℝ) - j) ≤ -1 ∨ 1 ≤ ((i : ℝ) - j) := by
      rcases Nat.lt_or_gt_of_ne hj with hbefore | hafter
      · have hstep : (j : ℝ) + 1 ≤ i := by exact_mod_cast hbefore
        exact .inr (by linarith)
      · have hstep : (i : ℝ) + 1 ≤ j := by exact_mod_cast hafter
        exact .inl (by linarith)
    rw [tent_eq_zero hfar, zero_mul]

/-- Between two neighbours only they count. -/
theorem interpolate_between (f : ℕ → ℝ) {n i : ℕ} (hi : i + 1 < n) {x : ℝ} (hlow : (i : ℝ) ≤ x)
    (hhigh : x ≤ i + 1) : interpolate f n x = lerp (f i) (f (i + 1)) (x - i) := by
  have hfirst : tent (x - i) = 1 - (x - i) := tent_of_nonneg (by linarith) (by linarith)
  have hsecond : tent (x - (i + 1 : ℕ)) = x - i := by
    push_cast
    rw [tent_of_nonpos (by linarith) (by linarith)]
    ring
  rw [interpolate, Finset.sum_eq_add_of_mem i (i + 1) (Finset.mem_range.mpr (by omega))
    (Finset.mem_range.mpr hi) (by omega), hfirst, hsecond]
  · show _ = f i + (f (i + 1) - f i) * (x - i)
    ring
  · rintro j - ⟨hj, hj'⟩
    have hfar : x - j ≤ -1 ∨ 1 ≤ x - j := by
      rcases Nat.lt_or_gt_of_ne hj with hbefore | hafter
      · have hstep : (j : ℝ) + 1 ≤ i := by exact_mod_cast hbefore
        exact .inr (by linarith)
      · have hstep : (i : ℝ) + 1 + 1 ≤ j := by exact_mod_cast (by omega : i + 1 + 1 ≤ j)
        exact .inl (by linarith)
    rw [tent_eq_zero hfar, zero_mul]

theorem nearest_of_nonpos (n : ℕ) {x : ℝ} (h : x ≤ 0) : nearest n x = 0 :=
  max_eq_left ((min_le_left ..).trans h)

theorem nearest_of_ge {n : ℕ} (hn : 0 < n) {x : ℝ} (h : (n : ℝ) - 1 ≤ x) :
    nearest n x = (n - 1 : ℕ) := by
  rw [nearest, min_eq_right h, Nat.cast_pred hn]
  exact max_eq_right (sub_nonneg.mpr (by exact_mod_cast hn))

theorem nearest_eq_self {n : ℕ} {x : ℝ} (hlow : 0 ≤ x) (hhigh : x ≤ n - 1) : nearest n x = x := by
  rw [nearest, min_eq_left hhigh, max_eq_right hlow]

open Texture in
/-- Two neighbours that are moved into a row, with the weights of the number that they are next to,
are the row at the place nearest to it. -/
theorem lerp_clampIndex (f : ℕ → ℝ) {n : ℕ} (hn : 0 < n) (x : ℝ) :
    lerp (f (clampIndex ⌊x⌋ n)) (f (clampIndex (⌊x⌋ + 1) n)) (x - ⌊x⌋)
      = interpolate f n (nearest n x) := by
  rcases lt_or_ge x 0 with hbefore | hlow
  · have hfloor : ⌊x⌋ < 0 := Int.floor_lt.mpr (by exact_mod_cast hbefore)
    rw [clampIndex_of_nonpos hfloor.le, clampIndex_of_nonpos hfloor, lerp_self,
      nearest_of_nonpos n hbefore.le]
    exact_mod_cast (interpolate_natCast f hn).symm
  obtain ⟨i, hi⟩ := Int.eq_ofNat_of_zero_le (Int.floor_nonneg.mpr hlow)
  have hbelow : (i : ℝ) ≤ x := by exact_mod_cast hi ▸ Int.floor_le x
  have habove : x < i + 1 := by exact_mod_cast hi ▸ Int.lt_floor_add_one x
  rcases lt_or_ge (i + 1) n with hinside | hafter
  · have hright : ((i : ℤ) + 1) = (i + 1 : ℕ) := by push_cast; rfl
    have hhigh : (i : ℝ) + 1 ≤ n - 1 := by
      have hcount : (i : ℝ) + 1 + 1 ≤ n := by exact_mod_cast hinside
      linarith
    rw [hi, clampIndex_of_lt (by omega), hright, clampIndex_of_lt hinside, Int.cast_natCast,
      nearest_eq_self hlow (by linarith), interpolate_between f hinside hbelow habove.le]
  · have hlast : (n : ℝ) - 1 ≤ x := by
      have hcount : (n : ℝ) ≤ i + 1 := by exact_mod_cast hafter
      linarith
    rw [clampIndex_of_ge (by omega), clampIndex_of_ge (by omega), lerp_self,
      nearest_of_ge hn hlast, interpolate_natCast f (by omega)]

namespace Texture

/-! ## The grid -/

/-- The texels of a channel, each counted by its distance in the row times that in the column. -/
noncomputable def bilinear (t : Texture ℝ) (x y : ℝ) (channel : ℕ) : ℝ :=
  ∑ row ∈ Finset.range t.height, ∑ column ∈ Finset.range t.width,
    tent (x - column) * tent (y - row) * t.texel column row channel

theorem bilinear_eq (t : Texture ℝ) (x y : ℝ) (channel : ℕ) :
    t.bilinear x y channel
      = interpolate (fun row => interpolate (fun column => t.texel column row channel) t.width x)
        t.height y := by
  unfold bilinear interpolate
  refine Finset.sum_congr rfl fun row _ => ?_
  rw [Finset.mul_sum]
  refine Finset.sum_congr rfl fun column _ => ?_
  ring

theorem filtered_eq_bilinear (t : Texture ℝ) (x y : ℝ) (channel : ℕ) :
    t.filtered x y channel = t.bilinear (nearest t.width x) (nearest t.height y) channel := by
  have hfloor (v : ℝ) : Scalar.toInt (Scalar.floor v) = ⌊v⌋ := Scalar.toInt_intCast ⌊v⌋
  have hrow (row : ℕ) := lerp_clampIndex (t.texel · row channel) t.width_pos x
  unfold filtered
  dsimp only at hrow ⊢
  rw [hfloor, hfloor]
  show lerp (lerp _ _ (x - ⌊x⌋)) (lerp _ _ (x - ⌊x⌋)) (y - ⌊y⌋) = _
  rw [hrow, hrow, bilinear_eq]
  exact lerp_clampIndex (fun row => interpolate (t.texel · row channel) t.width _) t.height_pos y

/-! ## Reads -/

section
variable {α : Type}

/-- A read that fails where there is no texel, and for a channel that is not stored. -/
def texel? (t : Texture α) (column row channel : ℕ) : Option α :=
  if column < t.width ∧ row < t.height ∧ channel < t.kind.channels then
    t.texels[(row * t.width + column) * t.kind.channels + channel]?
  else none

variable [Scalar α]

/-- Filtering with reads that may fail. -/
def filtered? (t : Texture α) (x y : α) (channel : ℕ) : Option α := do
  let column := Scalar.floor x
  let row := Scalar.floor y
  let left := clampIndex (Scalar.toInt column) t.width
  let right := clampIndex (Scalar.toInt column + 1) t.width
  let top := clampIndex (Scalar.toInt row) t.height
  let bottom := clampIndex (Scalar.toInt row + 1) t.height
  let topLeft ← t.texel? left top channel
  let topRight ← t.texel? right top channel
  let bottomLeft ← t.texel? left bottom channel
  let bottomRight ← t.texel? right bottom channel
  return lerp (lerp topLeft topRight (x - column)) (lerp bottomLeft bottomRight (x - column))
    (y - row)

/-- Sampling with reads that may fail. -/
def sample? (t : Texture α) (uv : Point α) : Option (Rgba α) := do
  let channel := t.filtered? (uv.x * Scalar.ofNat t.width - 0.5)
    (uv.y * Scalar.ofNat t.height - 0.5)
  match t.kind with
  | .monochrome =>
    let coverage ← channel 0
    return ⟨coverage, coverage, coverage, coverage⟩
  | .polychrome => return ⟨← channel 0, ← channel 1, ← channel 2, ← channel 3⟩

theorem texel?_eq {t : Texture α} {column row channel : ℕ} (hcolumn : column < t.width)
    (hrow : row < t.height) (hchannel : channel < t.kind.channels) :
    t.texel? column row channel = some (t.texel column row channel) := by
  have hplace : (row * t.width + column) * t.kind.channels + channel < t.texels.size := by
    have hlast : row * t.width + column + 1 ≤ t.height * t.width := by nlinarith
    rw [t.size_texels]
    nlinarith
  rw [texel?, if_pos ⟨hcolumn, hrow, hchannel⟩, texel, Array.getElem?_eq_getElem hplace]
  rfl

theorem filtered?_eq (t : Texture α) (x y : α) {channel : ℕ} (hchannel : channel < t.kind.channels) :
    t.filtered? x y channel = some (t.filtered x y channel) := by
  have hread (column row : ℤ) :=
    texel?_eq (clampIndex_lt column t.width_pos) (clampIndex_lt row t.height_pos) hchannel
  unfold filtered?
  simp only [hread, Option.bind_eq_bind, Option.bind_some]
  rfl

theorem sample?_eq (t : Texture α) (uv : Point α) : t.sample? uv = some (t.sample uv) := by
  have hchannel (channel : ℕ) (h : channel < t.kind.channels) :=
    t.filtered?_eq (uv.x * Scalar.ofNat t.width - 0.5) (uv.y * Scalar.ofNat t.height - 0.5) h
  unfold sample? sample
  cases hkind : t.kind with
  | monochrome =>
    rw [hkind] at hchannel
    simp only [hchannel 0 (by decide)]
    rfl
  | polychrome =>
    rw [hkind] at hchannel
    simp only [hchannel 0 (by decide), hchannel 1 (by decide), hchannel 2 (by decide),
      hchannel 3 (by decide)]
    rfl

end

/-! ## Beyond the edges -/

/-- Whether a fraction of an extent stays as it is, or lies outside and is moved further out. -/
def MovesOut (u u' : ℝ) : Prop := u' = u ∨ (u' ≤ u ∧ u ≤ 0) ∨ (1 ≤ u ∧ u ≤ u')

theorem MovesOut.nearest_eq {u u' : ℝ} (h : MovesOut u u') {n : ℕ} (hn : 0 < n) :
    nearest n (u' * n - 1 / 2) = nearest n (u * n - 1 / 2) := by
  have hextent : (0 : ℝ) < n := by exact_mod_cast hn
  have hbefore {v : ℝ} (hv : v ≤ 0) : v * n - 1 / 2 ≤ 0 := by
    linarith [mul_nonpos_of_nonpos_of_nonneg hv hextent.le]
  have hafter {v : ℝ} (hv : 1 ≤ v) : (n : ℝ) - 1 ≤ v * n - 1 / 2 := by
    linarith [le_mul_of_one_le_left hextent.le hv]
  rcases h with rfl | ⟨hout, hu⟩ | ⟨hu, hout⟩
  · rfl
  · rw [nearest_of_nonpos n (hbefore hu), nearest_of_nonpos n (hbefore (hout.trans hu))]
  · rw [nearest_of_ge hn (hafter hu), nearest_of_ge hn (hafter (hu.trans hout))]

theorem sample_eq_bilinear (t : Texture ℝ) (uv : Point ℝ) :
    t.sample uv = t.colorOf (t.bilinear (nearest t.width (uv.x * t.width - 1 / 2))
      (nearest t.height (uv.y * t.height - 1 / 2))) := by
  rw [sample_eq]
  exact congrArg t.colorOf (funext fun channel => t.filtered_eq_bilinear _ _ channel)

/-- A fraction of an extent that is the middle of a texel. -/
theorem middle_mul {i n : ℕ} (hi : i < n) : ((i : ℝ) + 1 / 2) / n * n - 1 / 2 = i := by
  have hextent : (n : ℝ) ≠ 0 := by exact_mod_cast (Nat.zero_lt_of_lt hi).ne'
  rw [div_mul_cancel₀ _ hextent, add_sub_cancel_right]

end Texture

/-- A texture that an atlas holds is sampled everywhere, no read fails, and the sample is the
bilinear interpolation at the place of the grid that is nearest to the position. So the middle of
a texel has its colour, no sample leaves the range of the texels, and outside the texture it makes
no difference how far. -/
theorem Atlas.sample_is_bilinear {atlas : Atlas ℝ} {ref : TextureRef ℝ} {t : Texture ℝ}
    (hfind : atlas.find? ref = some t) :
    (∀ uv : Point ℝ, t.sample? uv = some (t.sample uv)
      ∧ atlas.sample ref uv = .ok (t.colorOf
        (t.bilinear (nearest t.width (uv.x * t.width - 1 / 2))
          (nearest t.height (uv.y * t.height - 1 / 2)))))
      ∧ (∀ column row : ℕ, column < t.width → row < t.height →
        atlas.sample ref ⟨(column + 1 / 2) / t.width, (row + 1 / 2) / t.height⟩
          = .ok (t.colorOf (t.texel column row)))
      ∧ (∀ (channel : ℕ) (low high : ℝ),
        (∀ column row, column < t.width → row < t.height →
          t.texel column row channel ∈ Set.Icc low high) →
        ∀ x y, t.bilinear (nearest t.width x) (nearest t.height y) channel ∈ Set.Icc low high)
      ∧ ∀ uv uv' : Point ℝ, Texture.MovesOut uv.x uv'.x → Texture.MovesOut uv.y uv'.y →
        atlas.sample ref uv' = atlas.sample ref uv := by
  have hsample (uv : Point ℝ) : atlas.sample ref uv = .ok (t.sample uv) := by
    rw [sample, get, hfind]
    rfl
  refine ⟨fun uv => ⟨t.sample?_eq uv, ?_⟩, ?_, ?_, ?_⟩
  · rw [hsample, t.sample_eq_bilinear]
  · intro column row hcolumn hrow
    rw [hsample, Texture.sample_center hcolumn hrow (Texture.middle_mul hcolumn)
      (Texture.middle_mul hrow)]
  · intro channel low high hrange x y
    rw [← t.filtered_eq_bilinear]
    exact Texture.filtered_mem hrange x y
  · intro uv uv' hx hy
    rw [hsample, hsample, t.sample_eq_bilinear, t.sample_eq_bilinear, hx.nearest_eq t.width_pos,
      hy.nearest_eq t.height_pos]

/-- Four texels, sampled where all of them count, in the middle of the last one, and far outside
of the third one. -/
theorem Atlas.sample_is_bilinear_four_texels :
    let t : Texture ℝ :=
      ⟨.monochrome, 2, 2, #[0, 1, 1 / 2, 1 / 4], Nat.two_pos, Nat.two_pos, rfl⟩
    let ref : TextureRef ℝ := .numbered ⟨.monochrome, 0⟩
    let atlas : Atlas ℝ := ⟨[(⟨.monochrome, 0⟩, t)], 1, 0⟩
    let gray (v : ℝ) : Rgba ℝ := ⟨v, v, v, v⟩
    atlas.find? ref = some t
      ∧ t.sample? ⟨1 / 2, 1 / 2⟩ = some (t.sample ⟨1 / 2, 1 / 2⟩)
      ∧ atlas.sample ref ⟨1 / 2, 1 / 2⟩ = .ok (gray (7 / 16))
      ∧ atlas.sample ref ⟨3 / 4, 3 / 4⟩ = .ok (gray (1 / 4))
      ∧ atlas.sample ref ⟨-3, 5⟩ = .ok (gray (1 / 2))
      ∧ atlas.sample ref ⟨-30, 50⟩ = .ok (gray (1 / 2)) := by
  intro t ref atlas gray
  have hfind : atlas.find? ref = some t := rfl
  have htexel : t.texel 0 0 0 = 0 ∧ t.texel 1 0 0 = 1 ∧ t.texel 0 1 0 = 1 / 2
      ∧ t.texel 1 1 0 = 1 / 4 := ⟨rfl, rfl, rfl, rfl⟩
  have hvalue (x y : ℝ) : t.bilinear x y 0
      = tent x * tent (y - 1) * (1 / 2) + tent (x - 1) * tent (y - 1) * (1 / 4)
        + tent (x - 1) * tent y := by
    obtain ⟨h₀₀, h₁₀, h₀₁, h₁₁⟩ := htexel
    simp only [Texture.bilinear, show t.width = 2 from rfl, show t.height = 2 from rfl,
      Finset.sum_range_succ, Finset.sum_range_zero, h₀₀, h₁₀, h₀₁, h₁₁, Nat.cast_zero,
      Nat.cast_one, sub_zero]
    ring
  obtain ⟨hsample, hcenter, -, hout⟩ := sample_is_bilinear hfind
  have houter : atlas.sample ref ⟨-3, 5⟩ = .ok (gray (1 / 2)) := by
    have hx : nearest 2 (-3 * (2 : ℕ) - 1 / 2) = 0 := by norm_num [nearest]
    have hy : nearest 2 (5 * (2 : ℕ) - 1 / 2) = 1 := by norm_num [nearest]
    rw [(hsample _).2]
    show Except.ok (gray (t.bilinear (nearest 2 _) (nearest 2 _) 0)) = _
    rw [hx, hy, hvalue]
    norm_num [tent]
  refine ⟨hfind, (hsample _).1, ?_, ?_, houter, (hout ⟨-3, 5⟩ ⟨-30, 50⟩ ?_ ?_).trans houter⟩
  · have hmiddle : nearest 2 (1 / 2 * (2 : ℕ) - 1 / 2) = 1 / 2 := by norm_num [nearest]
    rw [(hsample _).2]
    show Except.ok (gray (t.bilinear (nearest 2 _) (nearest 2 _) 0)) = _
    rw [hmiddle, hvalue]
    norm_num [tent]
  · have hlast := hcenter 1 1 (by decide) (by decide)
    norm_num at hlast
    exact hlast
  · exact .inr (.inl (by norm_num))
  · exact .inr (.inr (by norm_num))

end Raster
