import Mathlib.Algebra.BigOperators.Intervals
import Raster.Scalar.Real
import Raster.Primitive.Shadow
import Raster.Proofs.ExactNaturals

/-!
# The samples of a blur

The coverage of a blurred shadow is a sum (`Shadow.coverage_eq_sum`): at each
sample, the blur of the row there is weighed by the density of the blur and
by the step between samples. The samples lie at the midpoints of equal steps
over a window, which is the part of the three blur radii around the point
that meets the shape.

Only the rows and the density depend on what the exponential and the square
root are, so the sum is told for any two functions in their places
(`Scalar.exactWith`).
-/

namespace Raster

namespace Scalar

/-- Exact arithmetic with other functions for the exponential and the square root. -/
@[reducible] noncomputable def exactWith (exp sqrt : ℝ → ℝ) : Scalar ℝ :=
  { (inferInstance : Scalar ℝ) with exp, sqrt }

theorem natCeil?_natCast (n : ℕ) : natCeil? (n : ℝ) = some n :=
  (exactBelow_real (n + 1)).natCeil? n.lt_succ_self

end Scalar

/-- The blur along x, at `x` from the middle of a row, in terms of half the row's width and of the
scale of the blur. -/
noncomputable def blurBetween (half scale x : ℝ) : ℝ :=
  (0.5 + 0.5 * erf ((x + half) * scale)) - (0.5 + 0.5 * erf ((x - half) * scale))

theorem blurredRow_eq (exp sqrt : ℝ → ℝ) (x y sigma radius halfWidth halfHeight : ℝ) :
    @blurredRow ℝ (.exactWith exp sqrt) x y sigma radius halfWidth halfHeight
      = blurBetween (@rowHalfWidth ℝ (.exactWith exp sqrt) y radius halfWidth halfHeight)
        (sqrt 0.5 / sigma) x := rfl

namespace Shadow

section
variable (s : Shadow ℝ) (p : Point ℝ)

/-! ## The window -/

/-- Moves a height, from a point on, to where the shape is. -/
noncomputable def clampToShape (y : ℝ) : ℝ :=
  min (max y ((p.sub s.bounds.center).y - s.bounds.size.height / 2))
    ((p.sub s.bounds.center).y + s.bounds.size.height / 2)

variable {s p} in
theorem clampToShape_eq_self {y : ℝ}
    (hlow : (p.sub s.bounds.center).y - s.bounds.size.height / 2 ≤ y)
    (hhigh : y ≤ (p.sub s.bounds.center).y + s.bounds.size.height / 2) :
    s.clampToShape p y = y := by
  rw [clampToShape, max_eq_left hlow, min_eq_left hhigh]

noncomputable def windowStart : ℝ := s.clampToShape p (-blurExtent * s.blurRadius)

noncomputable def windowStop : ℝ := s.clampToShape p (blurExtent * s.blurRadius)

noncomputable def sampleStep (n : ℕ) : ℝ := (s.windowStop p - s.windowStart p) / n

/-- The middle of a step. -/
noncomputable def sampleHeight (n i : ℕ) : ℝ :=
  s.windowStart p + (i + 1 / 2) * s.sampleStep p n

/-! ## The sum -/

variable (exp sqrt : ℝ → ℝ)

/-- The blur of the shape's row at a height from a point on. -/
noncomputable def rowWith (y : ℝ) : ℝ :=
  @blurredRow ℝ (.exactWith exp sqrt) (p.sub s.bounds.center).x
    ((p.sub s.bounds.center).y - y) s.blurRadius
    (s.cornerRadii.radiusAt (p.sub s.bounds.center)) (s.bounds.size.width / 2)
    (s.bounds.size.height / 2)

/-- What the row adds to the coverage, for each unit of the step. -/
noncomputable def sampleWith (y : ℝ) : ℝ :=
  s.rowWith p exp sqrt y * @gaussian ℝ (.exactWith exp sqrt) y s.blurRadius

/-- Adding up samples one after the other gives their sum. -/
theorem sumSamples_eq_sum (row : ℝ → ℝ) (sigma step : ℝ) (count : ℕ) (y sum : ℝ) :
    @sumSamples ℝ (.exactWith exp sqrt) row sigma step count y sum
      = sum + ∑ i ∈ Finset.range count,
          row (y + i * step) * @gaussian ℝ (.exactWith exp sqrt) (y + i * step) sigma * step := by
  induction count generalizing y sum with
  | zero => simp [sumSamples]
  | succ count ih =>
    have hnext (i : ℕ) : y + step + i * step = y + (i + 1 : ℕ) * step := by
      push_cast
      ring
    rw [Finset.sum_range_succ']
    refine (ih (y + step) _).trans ?_
    simp only [hnext, Nat.cast_zero, zero_mul, add_zero]
    ring

theorem coverage_eq_sum_with (hblur : minBlurRadius ≤ s.blurRadius) (n : ℕ) :
    @coverage ℝ (.exactWith exp sqrt) s p n
      = ∑ i ∈ Finset.range n,
          s.sampleWith p exp sqrt (s.sampleHeight p n i) * s.sampleStep p n := by
  have hblurred : ¬ s.blurRadius < minBlurRadius := not_lt.mpr hblur
  have hcount : (@Scalar.natCeil? ℝ (.exactWith exp sqrt) n).getD 0 = n := by
    show (Scalar.natCeil? (n : ℝ)).getD 0 = n
    rw [Scalar.natCeil?_natCast, Option.getD_some]
  have hheight (i : ℕ) : s.windowStart p + s.sampleStep p n * 0.5 + i * s.sampleStep p n
      = s.sampleHeight p n i := by
    rw [sampleHeight]
    ring
  calc @coverage ℝ (.exactWith exp sqrt) s p n
      = @sumSamples ℝ (.exactWith exp sqrt) (s.rowWith p exp sqrt) s.blurRadius
          (s.sampleStep p n) ((@Scalar.natCeil? ℝ (.exactWith exp sqrt) n).getD 0)
          (s.windowStart p + s.sampleStep p n * 0.5) 0 := if_neg hblurred
    _ = _ := by
      rw [hcount, sumSamples_eq_sum, zero_add]
      simp only [hheight, sampleWith]

end

variable {s : Shadow ℝ}

theorem row_eq_blurBetween {radius : ℝ}
    (hradii : s.cornerRadii = ⟨radius, radius, radius, radius⟩) (p : Point ℝ) (y : ℝ) :
    s.rowWith p Real.exp Real.sqrt y
      = blurBetween (rowHalfWidth ((p.sub s.bounds.center).y - y) radius (s.bounds.size.width / 2)
          (s.bounds.size.height / 2)) (√0.5 / s.blurRadius) (p.sub s.bounds.center).x := by
  rw [rowWith, blurredRow_eq, Corners.radiusAt_of_eq hradii]

/-- What a row adds to the coverage in exact arithmetic. -/
noncomputable def sample (s : Shadow ℝ) (p : Point ℝ) (y : ℝ) : ℝ :=
  s.sampleWith p Real.exp Real.sqrt y

theorem coverage_eq_sum (hblur : minBlurRadius ≤ s.blurRadius) (p : Point ℝ) (n : ℕ) :
    s.coverage p (Scalar.ofNat n)
      = ∑ i ∈ Finset.range n, s.sample p (s.sampleHeight p n i) * s.sampleStep p n :=
  s.coverage_eq_sum_with p Real.exp Real.sqrt hblur n

end Shadow

end Raster
