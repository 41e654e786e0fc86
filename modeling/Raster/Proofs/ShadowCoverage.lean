import Mathlib.Analysis.Complex.ExponentialBounds
import Raster.Proofs.GaussianSums
import Raster.Proofs.ShadowBlur
import Raster.Proofs.ShadowSamples

/-!
# Which sample counts give coverages

The coverage of a shadow is not clamped. It is never negative, but whether it
stays below 1 depends on the number of samples (`Shadow.coverage_in_range_iff`):
it does for two, and for four or more, and it does not for one and for three.

A row is blurred by no less than 0 and no more than 1 (`blurBetween_mem`), so
what decides are the sums of the density (`window_sum_le`). One step over the
whole window counts its peak for all of it, which is more than twice too
much. Three steps count too much by about an eightieth. Both show at the
centre of a shape that is large next to its blur (`Shadow.tenthBlur`).
-/

namespace Raster

/-! ## Rows -/

theorem erf_mem (v : ℝ) : erf v ∈ Set.Icc (-1 : ℝ) 1 := by
  have hupper {v : ℝ} (hv : 0 ≤ v) : erf v ≤ 1 := by
    have hbase := one_le_erfBase hv
    rw [erf_of_nonneg hv, sub_le_self_iff]
    positivity
  have hzero : erf (0 : ℝ) = 0 := by
    rw [erf_of_nonneg le_rfl]
    norm_num [erfBase]
  rcases le_total 0 v with hv | hv
  · exact ⟨by linarith [erf_mono hv], hupper hv⟩
  · have hneg := hupper (neg_nonneg.mpr hv)
    rw [erf_neg] at hneg
    exact ⟨by linarith, by linarith [erf_mono hv]⟩

theorem rowHalfWidth_nonneg (y : ℝ) {radius halfWidth : ℝ} (hfit : radius ≤ halfWidth)
    (halfHeight : ℝ) : 0 ≤ rowHalfWidth y radius halfWidth halfHeight :=
  add_nonneg (sub_nonneg.mpr hfit) (Real.sqrt_nonneg _)

/-- Where no corner is rounded, all rows are as wide as the shape. -/
theorem rowHalfWidth_of_radius_zero (y halfWidth halfHeight : ℝ) :
    rowHalfWidth y 0 halfWidth halfHeight = halfWidth := by
  have hcorner (delta : ℝ) : max 0 (0 * 0 - delta * delta) = 0 :=
    max_eq_left (by linarith [mul_self_nonneg delta])
  have hnone : rowHalfWidth y 0 halfWidth halfHeight = halfWidth - 0 + Real.sqrt 0 :=
    congrArg (fun room => halfWidth - 0 + Real.sqrt room) (hcorner _)
  rw [hnone, Real.sqrt_zero, sub_zero, add_zero]

theorem blurBetween_mem {half scale : ℝ} (hhalf : 0 ≤ half) (hscale : 0 ≤ scale) (x : ℝ) :
    blurBetween half scale x ∈ Set.Icc (0 : ℝ) 1 := by
  have hends : erf ((x - half) * scale) ≤ erf ((x + half) * scale) := by
    refine erf_mono (mul_le_mul_of_nonneg_right ?_ hscale)
    linarith
  have hlow := (erf_mem ((x - half) * scale)).1
  have hhigh := (erf_mem ((x + half) * scale)).2
  rw [blurBetween]
  constructor <;> linarith

/-- The density of a blur is a scaled bell curve. -/
theorem gaussian_mul {sigma : ℝ} (hsigma : 0 < sigma) (u : ℝ) :
    gaussian (sigma * u) sigma = bell u / (√(2 * Real.pi) * sigma) := by
  have hexponent : -(sigma * u * (sigma * u)) / (2 * sigma * sigma) = -u ^ 2 / 2 := by
    field_simp
  show Real.exp (-(sigma * u * (sigma * u)) / (2 * sigma * sigma)) / _ = _
  rw [hexponent]
  rfl

/-! ## Shadows with room for their corners -/

/-- No radius is above a bound. -/
structure Corners.AtMost (radii : Corners ℝ) (bound : ℝ) : Prop where
  topLeft : radii.topLeft ≤ bound
  topRight : radii.topRight ≤ bound
  bottomRight : radii.bottomRight ≤ bound
  bottomLeft : radii.bottomLeft ≤ bound

theorem Corners.AtMost.radiusAt {radii : Corners ℝ} {bound : ℝ} (h : radii.AtMost bound)
    (fromCenter : Point ℝ) : radii.radiusAt fromCenter ≤ bound := by
  unfold Corners.radiusAt
  split_ifs
  · exact h.topLeft
  · exact h.bottomLeft
  · exact h.topRight
  · exact h.bottomRight

namespace Shadow

/-- A shadow of a shape that is not inside out, with corners that the shorter sides have room
for. -/
structure Proper (s : Shadow ℝ) : Prop where
  width_nonneg : 0 ≤ s.bounds.size.width
  height_nonneg : 0 ≤ s.bounds.size.height
  radii_nonneg : s.cornerRadii.Nonneg
  radii_fit : s.cornerRadii.AtMost (min s.bounds.size.width s.bounds.size.height / 2)
  blur_nonneg : 0 ≤ s.blurRadius

theorem minBlurRadius_pos : (0 : ℝ) < minBlurRadius := by
  show (0 : ℝ) < 1e-4
  norm_num

section
variable {s : Shadow ℝ} (hs : s.Proper) (p : Point ℝ)
include hs

theorem Proper.radius_le_halfWidth :
    s.cornerRadii.radiusAt (p.sub s.bounds.center) ≤ s.bounds.size.width / 2 := by
  have hroom := hs.radii_fit.radiusAt (p.sub s.bounds.center)
  have hwidth := min_le_left s.bounds.size.width s.bounds.size.height
  linarith

theorem Proper.row_mem (y : ℝ) : s.rowWith p Real.exp Real.sqrt y ∈ Set.Icc (0 : ℝ) 1 := by
  rw [rowWith, blurredRow_eq]
  exact blurBetween_mem (rowHalfWidth_nonneg _ (hs.radius_le_halfWidth p) _)
    (div_nonneg (Real.sqrt_nonneg _) hs.blur_nonneg) _

end

/-! ## The window -/

theorem clampToShape_mono (s : Shadow ℝ) (p : Point ℝ) : Monotone (s.clampToShape p) :=
  fun _ _ hyz => min_le_min_right _ (max_le_max_right _ hyz)

/-- The densities at the samples of a window, told in standard deviations. -/
theorem density_sum_eq (s : Shadow ℝ) (p : Point ℝ) (hsigma : 0 < s.blurRadius) {a b : ℝ}
    (hstart : s.windowStart p = s.blurRadius * a) (hstop : s.windowStop p = s.blurRadius * b)
    (n : ℕ) :
    ∑ i ∈ Finset.range n, gaussian (s.sampleHeight p n i) s.blurRadius * s.sampleStep p n
      = (b - a) / n * (∑ i ∈ Finset.range n, bell (a + (i + 1 / 2) * ((b - a) / n)))
        / √(2 * Real.pi) := by
  have hstep : s.sampleStep p n = s.blurRadius * ((b - a) / n) := by
    rw [sampleStep, hstart, hstop, ← mul_sub, mul_div_assoc]
  have hheight (i : ℕ) :
      s.sampleHeight p n i = s.blurRadius * (a + (i + 1 / 2) * ((b - a) / n)) := by
    rw [sampleHeight, hstart, hstep]
    ring
  rw [Finset.mul_sum, Finset.sum_div]
  refine Finset.sum_congr rfl fun i _ => ?_
  rw [hheight, hstep, gaussian_mul hsigma]
  field_simp

section
variable {s : Shadow ℝ} (hs : s.Proper) (p : Point ℝ)
include hs

theorem Proper.reach_ordered : -blurExtent * s.blurRadius ≤ blurExtent * s.blurRadius := by
  show -3 * s.blurRadius ≤ 3 * s.blurRadius
  linarith [hs.blur_nonneg]

theorem Proper.windowStart_le_windowStop : s.windowStart p ≤ s.windowStop p :=
  s.clampToShape_mono p hs.reach_ordered

theorem Proper.sampleStep_nonneg (n : ℕ) : 0 ≤ s.sampleStep p n :=
  div_nonneg (sub_nonneg.mpr (hs.windowStart_le_windowStop p)) n.cast_nonneg

/-- The window is empty, or within the reach of the blur. -/
theorem Proper.window_in_reach : s.windowStart p = s.windowStop p
    ∨ -blurExtent * s.blurRadius ≤ s.windowStart p
      ∧ s.windowStop p ≤ blurExtent * s.blurRadius := by
  have hreach := hs.reach_ordered
  rw [windowStart, windowStop, clampToShape, clampToShape]
  set low := (p.sub s.bounds.center).y - s.bounds.size.height / 2
  set high := (p.sub s.bounds.center).y + s.bounds.size.height / 2
  rcases le_total (blurExtent * s.blurRadius) low with hbelow | hlow
  · left
    rw [max_eq_right hbelow, max_eq_right (hreach.trans hbelow)]
  rcases le_total high (-blurExtent * s.blurRadius) with habove | hhigh
  · left
    rw [min_eq_right (habove.trans (le_max_left _ _)),
      min_eq_right ((habove.trans hreach).trans (le_max_left _ _))]
  · right
    exact ⟨le_min (le_max_left _ _) hhigh, (min_le_left _ _).trans (max_le le_rfl hlow)⟩

theorem Proper.density_sum_le (hsigma : 0 < s.blurRadius) {n : ℕ} (hn : n = 2 ∨ 4 ≤ n) :
    ∑ i ∈ Finset.range n, gaussian (s.sampleHeight p n i) s.blurRadius * s.sampleStep p n ≤ 1 := by
  rcases hs.window_in_reach p with hempty | ⟨hstart, hstop⟩
  · have hstep : s.sampleStep p n = 0 := by rw [sampleStep, hempty, sub_self, zero_div]
    simp only [hstep, mul_zero, Finset.sum_const_zero, zero_le_one]
  · have hscaled (y : ℝ) : y = s.blurRadius * (y / s.blurRadius) :=
      (mul_div_cancel₀ y hsigma.ne').symm
    rw [s.density_sum_eq p hsigma (hscaled _) (hscaled _), div_le_one (by positivity)]
    refine window_sum_le hn ?_ ?_ ?_
    · rwa [le_div_iff₀ hsigma]
    · exact div_le_div_of_nonneg_right (hs.windowStart_le_windowStop p) hsigma.le
    · rwa [div_le_iff₀ hsigma]

end

/-! ## Coverages -/

/-- Without samples there is nothing to add up. -/
theorem coverage_zero_le_one (s : Shadow ℝ) (p : Point ℝ) :
    s.coverage p (Scalar.ofNat 0) ≤ 1 := by
  rcases lt_or_ge s.blurRadius minBlurRadius with hsharp | hblur
  · rw [coverage, if_pos hsharp]
    exact (saturate_mem _).2
  · rw [coverage_eq_sum hblur, Finset.sum_range_zero]
    exact zero_le_one

section
variable {s : Shadow ℝ} (hs : s.Proper) (p : Point ℝ)
include hs

theorem Proper.coverage_nonneg (n : ℕ) : 0 ≤ s.coverage p (Scalar.ofNat n) := by
  rcases lt_or_ge s.blurRadius minBlurRadius with hsharp | hblur
  · rw [coverage, if_pos hsharp]
    exact (saturate_mem _).1
  · rw [coverage_eq_sum hblur]
    refine Finset.sum_nonneg fun i _ => mul_nonneg ?_ (hs.sampleStep_nonneg p n)
    exact mul_nonneg (hs.row_mem p _).1 (gaussian_pos _ (minBlurRadius_pos.trans_le hblur)).le

theorem Proper.coverage_le_one {n : ℕ} (hn : n = 2 ∨ 4 ≤ n) :
    s.coverage p (Scalar.ofNat n) ≤ 1 := by
  rcases lt_or_ge s.blurRadius minBlurRadius with hsharp | hblur
  · rw [coverage, if_pos hsharp]
    exact (saturate_mem _).2
  · have hsigma := minBlurRadius_pos.trans_le hblur
    rw [coverage_eq_sum hblur]
    refine (Finset.sum_le_sum fun i _ => ?_).trans (hs.density_sum_le p hsigma hn)
    have hdensity := (gaussian_pos (s.sampleHeight p n i) hsigma).le
    refine mul_le_mul_of_nonneg_right ?_ (hs.sampleStep_nonneg p n)
    exact mul_le_of_le_one_left hdensity (hs.row_mem p _).2

end

/-! ## One sample and three -/

/-- A square under a blur of a tenth of its side. -/
noncomputable def tenthBlur : Shadow ℝ :=
  ⟨⟨0, .of 0 0 100 100, .of 30 30 40 40⟩, ⟨0, 0, 0, 0⟩, 4, ⟨0, 0, 0, 0.5⟩⟩

theorem tenthBlur_proper : tenthBlur.Proper where
  width_nonneg := by norm_num [tenthBlur, Bounds.of]
  height_nonneg := by norm_num [tenthBlur, Bounds.of]
  radii_nonneg := ⟨le_rfl, le_rfl, le_rfl, le_rfl⟩
  radii_fit := by constructor <;> norm_num [tenthBlur, Bounds.of]
  blur_nonneg := by norm_num [tenthBlur]

theorem tenthBlur_sides :
    tenthBlur.bounds.size.width / 2 = 20 ∧ tenthBlur.bounds.size.height / 2 = 20 := by
  norm_num [tenthBlur, Bounds.of]

theorem minBlurRadius_le_tenthBlur : minBlurRadius ≤ tenthBlur.blurRadius := by
  show (1e-4 : ℝ) ≤ 4
  norm_num

theorem tenthBlur_fromCenter : (⟨50, 50⟩ : Point ℝ).sub tenthBlur.bounds.center = ⟨0, 0⟩ := by
  norm_num [tenthBlur, Bounds.center, Bounds.of, Point.sub]

theorem tenthBlur_row (y : ℝ) :
    tenthBlur.rowWith ⟨50, 50⟩ Real.exp Real.sqrt y = erf (5 * √0.5) := by
  have hradii : tenthBlur.cornerRadii = ⟨0, 0, 0, 0⟩ := rfl
  have hend : 20 * (√0.5 / tenthBlur.blurRadius) = 5 * √0.5 := by
    show 20 * (√0.5 / 4) = 5 * √0.5
    ring
  rw [row_eq_blurBetween hradii, rowHalfWidth_of_radius_zero, tenthBlur_fromCenter,
    tenthBlur_sides.1, blurBetween, zero_add, zero_sub, neg_mul, hend, erf_neg]
  ring

theorem tenthBlur_clampToShape {k : ℝ} (hk : |k * 4| ≤ 20) :
    tenthBlur.clampToShape ⟨50, 50⟩ (k * tenthBlur.blurRadius) = tenthBlur.blurRadius * k := by
  obtain ⟨hlow, hhigh⟩ := abs_le.mp hk
  rw [clampToShape_eq_self, mul_comm]
  · rwa [tenthBlur_fromCenter, tenthBlur_sides.2, zero_sub]
  · rwa [tenthBlur_fromCenter, tenthBlur_sides.2, zero_add]

/-- At the centre of the square the whole reach of the blur is sampled. -/
theorem tenthBlur_coverage (n : ℕ) : tenthBlur.coverage ⟨50, 50⟩ (Scalar.ofNat n)
    = erf (5 * √0.5) * ((3 - -3) / n * (∑ i ∈ Finset.range n,
        bell (-3 + (i + 1 / 2) * ((3 - -3) / n))) / √(2 * Real.pi)) := by
  have hstart : tenthBlur.windowStart ⟨50, 50⟩ = tenthBlur.blurRadius * (-3) :=
    tenthBlur_clampToShape (k := -3) (by norm_num)
  have hstop : tenthBlur.windowStop ⟨50, 50⟩ = tenthBlur.blurRadius * 3 :=
    tenthBlur_clampToShape (k := 3) (by norm_num)
  have hsigma := minBlurRadius_pos.trans_le minBlurRadius_le_tenthBlur
  rw [coverage_eq_sum minBlurRadius_le_tenthBlur,
    ← tenthBlur.density_sum_eq _ hsigma hstart hstop, Finset.mul_sum]
  refine Finset.sum_congr rfl fun i _ => ?_
  rw [sample, sampleWith, tenthBlur_row, mul_assoc]

theorem le_erf_tenthBlur : 0.999 ≤ erf (5 * √0.5) := by
  have hroot : (0.7 : ℝ) ≤ √0.5 := Real.le_sqrt_of_sq_le (by norm_num)
  refine le_trans ?_ (erf_mono (mul_le_mul_of_nonneg_left hroot (by norm_num : (0 : ℝ) ≤ 5)))
  rw [erf_of_nonneg (by norm_num)]
  norm_num [erfBase]

/-- One sample counts the peak of the density for the whole window. -/
theorem one_lt_coverage_one : 1 < tenthBlur.coverage ⟨50, 50⟩ (Scalar.ofNat 1) := by
  have hsum : (3 - -3) / (1 : ℕ) * (∑ i ∈ Finset.range 1,
      bell (-3 + (i + 1 / 2) * ((3 - -3) / (1 : ℕ)))) = 6 := by
    rw [Finset.sum_range_one]
    norm_num [bell]
  have hpeak : 6 / 2.51 ≤ 6 / √(2 * Real.pi) :=
    div_le_div_of_nonneg_left (by norm_num) (by positivity) sqrt_two_pi_le
  rw [tenthBlur_coverage, hsum]
  nlinarith [le_erf_tenthBlur]

/-- With three samples, the two beside the peak count too much as well. -/
theorem one_lt_coverage_three : 1 < tenthBlur.coverage ⟨50, 50⟩ (Scalar.ofNat 3) := by
  have hsum : (3 - -3) / (3 : ℕ) * (∑ i ∈ Finset.range 3,
      bell (-3 + (i + 1 / 2) * ((3 - -3) / (3 : ℕ)))) = 2 * (1 + 2 * Real.exp (-2)) := by
    rw [Finset.sum_range_succ, Finset.sum_range_succ, Finset.sum_range_one]
    norm_num [bell]
    ring
  have hside : 0.1353 ≤ Real.exp (-2) := by
    have htwo : Real.exp 2 = Real.exp 1 * Real.exp 1 := by
      rw [← Real.exp_add]
      norm_num
    rw [Real.exp_neg, ← one_div, le_div_iff₀ (Real.exp_pos _), htwo]
    nlinarith [Real.exp_one_lt_d9, Real.exp_pos 1]
  have hpeaks : 2.5412 / 2.51 ≤ 2 * (1 + 2 * Real.exp (-2)) / √(2 * Real.pi) := by
    gcongr
    · linarith
    · exact sqrt_two_pi_le
  rw [tenthBlur_coverage, hsum]
  nlinarith [le_erf_tenthBlur]

/-- Coverages are never negative, and with the given number of samples none is above 1 exactly if
that number is not one and not three. -/
theorem coverage_in_range_iff (n : ℕ) :
    (∀ s : Shadow ℝ, s.Proper → ∀ p, 0 ≤ s.coverage p (Scalar.ofNat n))
      ∧ ((∀ s : Shadow ℝ, s.Proper → ∀ p, s.coverage p (Scalar.ofNat n) ≤ 1) ↔ n ≠ 1 ∧ n ≠ 3) := by
  refine ⟨fun s hs p => hs.coverage_nonneg p n, fun hle => ⟨?_, ?_⟩, fun hn s hs p => ?_⟩
  · rintro rfl
    exact (hle tenthBlur tenthBlur_proper ⟨50, 50⟩).not_gt one_lt_coverage_one
  · rintro rfl
    exact (hle tenthBlur tenthBlur_proper ⟨50, 50⟩).not_gt one_lt_coverage_three
  · rcases Nat.eq_zero_or_pos n with rfl | hpos
    · exact s.coverage_zero_le_one p
    · exact hs.coverage_le_one p (by omega)

/-- With the usual four samples the square is covered, at its centre, by no more than 1. -/
theorem coverage_in_range_four_samples : tenthBlur.Proper
    ∧ 0 ≤ tenthBlur.coverage ⟨50, 50⟩ (Scalar.ofNat 4)
    ∧ tenthBlur.coverage ⟨50, 50⟩ (Scalar.ofNat 4) ≤ 1 := by
  obtain ⟨hnonneg, hone⟩ := coverage_in_range_iff 4
  exact ⟨tenthBlur_proper, hnonneg _ tenthBlur_proper _,
    hone.mpr ⟨by decide, by decide⟩ _ tenthBlur_proper _⟩

/-- With one sample, and with three, the centre of the square is covered by more than 1. -/
theorem coverage_above_one : tenthBlur.Proper
    ∧ 1 < tenthBlur.coverage ⟨50, 50⟩ (Scalar.ofNat 1)
    ∧ 1 < tenthBlur.coverage ⟨50, 50⟩ (Scalar.ofNat 3) :=
  ⟨tenthBlur_proper, one_lt_coverage_one, one_lt_coverage_three⟩

end Shadow

end Raster
