import Raster.Scalar.Real
import Mathlib.Order.Monotone.Odd
import Mathlib.Tactic.Positivity
import Raster.Primitive.Shadow

/-!
# The blur of a shadow

The approximation of the error function is odd and monotone (`erf_neg`,
`erf_mono`), and the normal density is positive (`gaussian_pos`). A row of a
shape without width therefore has a blur that is not positive
(`blurredRow_nonpos`), and a shape without height has no part of the window
to be sampled. So a blurred shadow without area covers nothing
(`Shadow.coverage_nonpos`).
-/

namespace Raster

/-- Whether a rectangle has no area; a negative side counts as none. -/
def Bounds.IsEmpty (b : Bounds ℝ) : Prop := b.size.width ≤ 0 ∨ b.size.height ≤ 0

/-- No radius is negative. -/
structure Corners.Nonneg (radii : Corners ℝ) : Prop where
  topLeft : 0 ≤ radii.topLeft
  topRight : 0 ≤ radii.topRight
  bottomRight : 0 ≤ radii.bottomRight
  bottomLeft : 0 ≤ radii.bottomLeft

theorem Corners.Nonneg.radiusAt {radii : Corners ℝ} (h : radii.Nonneg) (fromCenter : Point ℝ) :
    0 ≤ radii.radiusAt fromCenter := by
  unfold Corners.radiusAt
  split_ifs
  · exact h.topLeft
  · exact h.bottomLeft
  · exact h.topRight
  · exact h.bottomRight

/-! ## The error function -/

/-- What the approximation divides by, before it is raised to the fourth power. -/
noncomputable def erfBase (a : ℝ) : ℝ :=
  1 + (0.278393 + (0.230389 + (0.000972 + 0.078108 * a) * a) * a) * a

theorem erfBase_mono {a b : ℝ} (ha : 0 ≤ a) (hab : a ≤ b) : erfBase a ≤ erfBase b := by
  have hb := ha.trans hab
  unfold erfBase
  gcongr

theorem one_le_erfBase {a : ℝ} (ha : 0 ≤ a) : 1 ≤ erfBase a := by
  have hzero : erfBase 0 = 1 := by norm_num [erfBase]
  rw [← hzero]
  exact erfBase_mono (le_refl 0) ha

theorem erf_eq (v : ℝ) : erf v = Scalar.sign v - Scalar.sign v / erfBase |v| ^ 4 := by
  have hpower (r : ℝ) : r * r * (r * r) = r ^ 4 := by ring
  rw [← hpower]
  rfl

theorem erf_of_nonneg {v : ℝ} (hv : 0 ≤ v) : erf v = 1 - 1 / erfBase v ^ 4 := by
  rw [erf_eq, abs_of_nonneg hv]
  rcases hv.eq_or_lt with rfl | hpos
  · have hsign : Scalar.sign (0 : ℝ) = 0 := by simp [Scalar.sign]
    norm_num [hsign, erfBase]
  · have hsign : Scalar.sign v = 1 := if_pos hpos
    rw [hsign]

theorem erf_neg (v : ℝ) : erf (-v) = -erf v := by
  have hsign : Scalar.sign (-v) = -Scalar.sign v := by
    show (if 0 < -v then (1 : ℝ) else if -v < 0 then -1 else 0)
      = -(if 0 < v then 1 else if v < 0 then -1 else 0)
    rcases lt_trichotomy v 0 with h | rfl | h
    · simp [h, h.not_gt]
    · simp
    · simp [h, h.not_gt]
  rw [erf_eq, erf_eq, hsign, abs_neg]
  ring

theorem erf_mono : Monotone (erf : ℝ → ℝ) := by
  refine monotone_of_odd_of_monotoneOn_nonneg erf_neg fun x hx y hy hxy => ?_
  rw [Set.mem_Ici] at hx hy
  have hbase := one_le_erfBase hx
  have hle := erfBase_mono hx hxy
  rw [erf_of_nonneg hx, erf_of_nonneg hy]
  gcongr

/-! ## Samples -/

theorem gaussian_pos (x : ℝ) {sigma : ℝ} (hsigma : 0 < sigma) : 0 < gaussian x sigma := by
  show 0 < Real.exp _ / (Real.sqrt (2 * Real.pi) * sigma)
  positivity

/-- A rounded corner makes no row longer. -/
theorem rowHalfWidth_le (y : ℝ) {radius : ℝ} (hradius : 0 ≤ radius) (halfWidth halfHeight : ℝ) :
    rowHalfWidth y radius halfWidth halfHeight ≤ halfWidth := by
  have hcorner (delta : ℝ) : Real.sqrt (max 0 (radius * radius - delta * delta)) ≤ radius := by
    rw [Real.sqrt_le_iff]
    refine ⟨hradius, max_le (sq_nonneg radius) ?_⟩
    linarith [mul_self_nonneg delta]
  calc rowHalfWidth y radius halfWidth halfHeight ≤ halfWidth - radius + radius :=
        add_le_add_right (hcorner _) _
    _ = halfWidth := sub_add_cancel ..

/-- A row whose ends have changed places has a blur that is not positive. -/
theorem blurredRow_nonpos (x y : ℝ) {sigma radius halfWidth halfHeight : ℝ} (hsigma : 0 < sigma)
    (hradius : 0 ≤ radius) (hwidth : halfWidth ≤ 0) :
    blurredRow x y sigma radius halfWidth halfHeight ≤ 0 := by
  have hrow := (rowHalfWidth_le y hradius halfWidth halfHeight).trans hwidth
  unfold blurredRow
  dsimp only
  generalize rowHalfWidth y radius halfWidth halfHeight = half at hrow
  have hscale : (0 : ℝ) ≤ Scalar.sqrt 0.5 / sigma := div_nonneg (Real.sqrt_nonneg _) hsigma.le
  have hends : erf ((x + half) * (Scalar.sqrt 0.5 / sigma))
      ≤ erf ((x - half) * (Scalar.sqrt 0.5 / sigma)) := by
    refine erf_mono (mul_le_mul_of_nonneg_right ?_ hscale)
    linarith
  linarith

namespace Shadow

/-- Samples that are not positive only take away. -/
theorem sumSamples_le {row : ℝ → ℝ} (hrow : ∀ y, row y ≤ 0) {sigma step : ℝ} (hsigma : 0 < sigma)
    (hstep : 0 ≤ step) (count : ℕ) (y sum : ℝ) : sumSamples row sigma step count y sum ≤ sum := by
  induction count generalizing y sum with
  | zero => exact le_refl sum
  | succ count ih =>
    have hsample : row y * gaussian y sigma * step ≤ 0 :=
      mul_nonpos_of_nonpos_of_nonneg
        (mul_nonpos_of_nonpos_of_nonneg (hrow y) (gaussian_pos y hsigma).le) hstep
    exact (ih _ _).trans (add_le_of_nonpos_right hsample)

theorem sumSamples_of_step_zero (row : ℝ → ℝ) (sigma : ℝ) (count : ℕ) (y sum : ℝ) :
    sumSamples row sigma 0 count y sum = sum := by
  induction count generalizing y sum with
  | zero => rfl
  | succ count ih => rw [sumSamples, ih, mul_zero, add_zero]

section
variable {s : Shadow ℝ} (hradii : s.cornerRadii.Nonneg) (hblur : minBlurRadius ≤ s.blurRadius)
include hradii hblur

/-- Without area, the samples of a blur add up to nothing. -/
theorem coverage_nonpos (hempty : s.bounds.IsEmpty) (p : Point ℝ) (samples : ℕ) :
    s.coverage p (Scalar.ofNat samples) ≤ 0 := by
  have hsmall : (0 : ℝ) < minBlurRadius := by
    show (0 : ℝ) < 1e-4
    norm_num
  have hsigma := hsmall.trans_le hblur
  have hblurred : ¬ s.blurRadius < minBlurRadius := not_lt.mpr hblur
  rw [coverage, if_neg hblurred]
  dsimp only
  rcases hempty with hwidth | hheight
  · -- no row has a width
    have hhalf : s.bounds.size.width / 2 ≤ 0 := by linarith
    refine sumSamples_le (fun y => ?_) hsigma ?_ _ _ 0
    · exact blurredRow_nonpos _ _ hsigma (hradii.radiusAt _) hhalf
    · refine div_nonneg (sub_nonneg.mpr ?_) (Nat.cast_nonneg samples)
      refine min_le_min_right _ (max_le_max_right _ ?_)
      show -blurExtent * s.blurRadius ≤ blurExtent * s.blurRadius
      have hextent : (0 : ℝ) ≤ blurExtent * s.blurRadius := by
        show 0 ≤ 3 * s.blurRadius
        positivity
      linarith
  · -- the window is empty, and all of its steps are zero
    have hends (bound : ℝ) : min (max bound ((p.sub s.bounds.center).y - s.bounds.size.height / 2))
        ((p.sub s.bounds.center).y + s.bounds.size.height / 2)
        = (p.sub s.bounds.center).y + s.bounds.size.height / 2 := by
      refine min_eq_right (le_trans ?_ (le_max_right ..))
      linarith
    rw [hends, hends, sub_self, zero_div, sumSamples_of_step_zero]

end

end Shadow

end Raster
