import Mathlib.Analysis.Real.Pi.Bounds
import Mathlib.Analysis.SpecialFunctions.Trigonometric.Series
import Mathlib.NumberTheory.ModularForms.JacobiTheta.TwoVariable

/-!
# Sums of a bell curve

The integral of a bell curve over a window of three standard deviations to
each side, or over a part of it, is approximated by the values at the middles
of `n` equal steps. The approximation does not exceed the integral over the
whole line if there are two steps, or four or more (`window_sum_le`); with
one or three it may.

From four steps on the steps are so short that the values on the whole grid
add up to hardly more than the integral: by Poisson's summation the excess is
a theta series on the dual grid (`gridSum_le`). It is less than what the
nearest two values outside the window contribute (`dual_tail_le`). Two steps
may be too long for that, and are bounded by calculus (`pair_le`). There the
bound is close: it is missed by half a percent where a step is about 2.3
standard deviations long and one end of the window is three away.
-/

namespace Raster

open Real

/-- The bell curve: the density of a blur before it is scaled. -/
noncomputable def bell (u : ℝ) : ℝ := exp (-u ^ 2 / 2)

theorem bell_nonneg (u : ℝ) : 0 ≤ bell u := exp_nonneg _

/-- The values of the bell curve on a whole grid, added up. -/
noncomputable def gridSum (x h : ℝ) : ℝ := tsum fun k : ℤ => bell (x + k * h)

/-- The theta series. -/
noncomputable def theta (c : ℝ) : ℝ := tsum fun k : ℤ => exp (-c * k ^ 2)

/-! ## Constants -/

theorem sqrt_two_pi_le : √(2 * π) ≤ 2.51 := by
  rw [sqrt_le_left (by norm_num)]
  linarith [pi_lt_d2]

theorem le_sqrt_two_pi : 2.5065 ≤ √(2 * π) := by
  rw [le_sqrt' (by norm_num)]
  linarith [pi_gt_d4]

theorem exp_neg_half_le : exp (-(1 / 2)) ≤ 0.6068 := by
  rw [exp_neg, ← one_div, div_le_iff₀ (exp_pos _)]
  have h := sum_le_exp_of_nonneg (x := 1 / 2) (by norm_num) 5
  norm_num [Finset.sum_range_succ, Nat.factorial] at h
  linarith

/-! ## Grids -/

theorem summable_exp_quadratic {a : ℝ} (ha : 0 < a) (b : ℝ) :
    Summable fun k : ℤ => exp (-π * k ^ 2 * a - 2 * π * k * b) := by
  have hterm : Summable (jacobiTheta₂_term · (b * Complex.I) (a * Complex.I)) := by
    rw [summable_jacobiTheta₂_term_iff]
    simpa using ha
  refine hterm.norm.congr fun k => ?_
  simp [norm_jacobiTheta₂_term]

theorem summable_exp_sq {c : ℝ} (hc : 0 < c) : Summable fun k : ℤ => exp (-c * k ^ 2) := by
  refine (summable_exp_quadratic (div_pos hc pi_pos) 0).congr fun k => ?_
  congr 1
  field_simp
  ring

/-- The theta series is below a geometric one. -/
theorem theta_le {c : ℝ} (hc : 0 < c) : theta c ≤ 1 + 2 * (exp (-c) / (1 - exp (-c))) := by
  have hratio : exp (-c) < 1 := exp_lt_one_iff.mpr (by linarith)
  have hgeom := (hasSum_geometric_of_lt_one (exp_nonneg (-c)) hratio).mul_left (exp (-c))
  have hterm (n : ℕ) : exp (-c * (n + 1 : ℝ) ^ 2) ≤ exp (-c) * exp (-c) ^ n := by
    rw [← exp_nat_mul, ← exp_add, exp_le_exp]
    have hn : (0 : ℝ) ≤ n := n.cast_nonneg
    have hsquare : 1 + n ≤ (n + 1 : ℝ) ^ 2 := by nlinarith
    linarith [mul_le_mul_of_nonneg_left hsquare hc.le]
  have htail : (tsum fun n : ℕ => exp (-c * (n + 1 : ℝ) ^ 2)) ≤ exp (-c) / (1 - exp (-c)) := by
    refine (Summable.tsum_le_tsum hterm ?_ hgeom.summable).trans_eq hgeom.tsum_eq
    exact Summable.of_nonneg_of_le (fun n => exp_nonneg _) hterm hgeom.summable
  have heven : Function.Even fun k : ℤ => exp (-c * (k : ℝ) ^ 2) := fun k => by
    simp only [Int.cast_neg, neg_sq]
  have hzero : exp (-c * ((0 : ℤ) : ℝ) ^ 2) = 1 := by
    rw [Int.cast_zero, zero_pow two_ne_zero, mul_zero, exp_zero]
  rw [theta, tsum_int_eq_zero_add_two_mul_tsum_pnat heven (summable_exp_sq hc),
    tsum_pnat_eq_tsum_succ (f := fun n : ℕ => exp (-c * ((n : ℤ) : ℝ) ^ 2)), hzero, two_nsmul,
    ← two_mul]
  push_cast
  linarith

theorem summable_bell (x : ℝ) {h : ℝ} (hh : 0 < h) : Summable fun k : ℤ => bell (x + k * h) := by
  have hsum := summable_exp_quadratic (a := h ^ 2 / (2 * π)) (by positivity) (x * h / (2 * π))
  refine (hsum.mul_left (bell x)).congr fun k => ?_
  rw [bell, bell, ← exp_add]
  congr 1
  field_simp
  ring

theorem sum_bell_le_gridSum (x : ℝ) {h : ℝ} (hh : 0 < h) (n : ℕ) :
    ∑ i ∈ Finset.range n, bell (x + i * h) ≤ gridSum x h := by
  have hsum := (summable_bell x hh).sum_le_tsum ((Finset.range n).map Nat.castEmbedding)
    fun k _ => bell_nonneg _
  rwa [Finset.sum_map] at hsum

/-! ### Poisson's summation

The two sides of Poisson's formula for a Gaussian of variance `h ^ 2 / (2 * π)`, moved by
`x / h`. -/

theorem cexp_eq_bell (x : ℝ) {h : ℝ} (hh : h ≠ 0) (k : ℤ) :
    Complex.exp (-π / (2 * π / h ^ 2 : ℝ) * (k + Complex.I * (-(x / h : ℝ) * Complex.I)) ^ 2)
      = (bell (x + k * h) : ℂ) := by
  have hmoved : Complex.I * (-(x / h : ℝ) * Complex.I) = (x / h : ℝ) := by
    linear_combination (-(x / h : ℝ) : ℂ) * Complex.I_mul_I
  rw [hmoved, bell, Complex.ofReal_exp]
  congr 1
  norm_cast
  field_simp
  ring

theorem one_div_cpow_half {h : ℝ} (hh : 0 < h) :
    1 / ((2 * π / h ^ 2 : ℝ) : ℂ) ^ (1 / 2 : ℂ) = (h / √(2 * π) : ℝ) := by
  have hhalf : (1 / 2 : ℂ) = ((1 / 2 : ℝ) : ℂ) := by
    push_cast
    rfl
  rw [hhalf, ← Complex.ofReal_cpow (by positivity), ← sqrt_eq_rpow, sqrt_div (by positivity),
    sqrt_sq hh.le]
  push_cast
  rw [one_div_div]

/-- On the dual grid, where the grid lies is in the phases only. -/
theorem norm_cexp_dual (x h : ℝ) (k : ℤ) :
    ‖Complex.exp (-π * (2 * π / h ^ 2 : ℝ) * k ^ 2 + 2 * π * (-(x / h : ℝ) * Complex.I) * k)‖
      = exp (-(2 * π ^ 2 / h ^ 2) * k ^ 2) := by
  have hparts : (-π * (2 * π / h ^ 2 : ℝ) * k ^ 2 + 2 * π * (-(x / h : ℝ) * Complex.I) * k : ℂ)
      = ((-(2 * π ^ 2 / h ^ 2) * k ^ 2 : ℝ) : ℂ)
        + ((-(2 * π * (x / h) * k) : ℝ) : ℂ) * Complex.I := by
    push_cast
    ring
  rw [Complex.norm_exp, hparts, Complex.add_re, Complex.re_ofReal_mul, Complex.I_re, mul_zero,
    add_zero, Complex.ofReal_re]

/-- Wherever a grid lies, its values add up to no more than they do if it goes through the peak. -/
theorem gridSum_le (x : ℝ) {h : ℝ} (hh : 0 < h) :
    h * gridSum x h ≤ √(2 * π) * theta (2 * π ^ 2 / h ^ 2) := by
  have hrate : 0 < 2 * π / h ^ 2 := by positivity
  have hroot : 0 < √(2 * π) := by positivity
  have hpoisson := Complex.tsum_exp_neg_quadratic (a := (2 * π / h ^ 2 : ℝ))
    (by rwa [Complex.ofReal_re]) (-(x / h : ℝ) * Complex.I)
  simp only [cexp_eq_bell x hh.ne'] at hpoisson
  have hsummable := summable_exp_sq (c := 2 * π ^ 2 / h ^ 2) (by positivity)
  have hnorm := norm_tsum_le_tsum_norm (hsummable.congr fun k => (norm_cexp_dual x h k).symm)
  simp only [norm_cexp_dual] at hnorm
  rw [hpoisson, one_div_cpow_half hh, ← Complex.ofReal_tsum, ← Complex.ofReal_mul,
    Complex.norm_real] at hnorm
  calc h * gridSum x h = √(2 * π) * (h / √(2 * π) * gridSum x h) := by field_simp
    _ ≤ √(2 * π) * theta (2 * π ^ 2 / h ^ 2) :=
      mul_le_mul_of_nonneg_left ((le_abs_self _).trans hnorm) hroot.le

/-- So near to the peak, a bell curve is not yet negligible. -/
theorem le_bell {u : ℝ} (hu : |u| ≤ 15 / 4) : exp (-(225 / 32)) ≤ bell u := by
  have hsquare := sq_le_sq' (neg_le_of_abs_le hu) (le_of_abs_le hu)
  rw [bell, exp_le_exp]
  linarith

theorem exp_neg_eight_le : exp (-8) ≤ 1 / 9 := by
  rw [exp_neg, ← one_div]
  exact one_div_le_one_div_of_le (by norm_num) (by linarith [add_one_le_exp (8 : ℝ)])

/-- The first term of the theta series, next to the length of the step. -/
theorem exp_neg_dual_le {h : ℝ} (hh : 0 < h) (hstep : h ≤ 3 / 2) :
    exp (-(2 * π ^ 2 / h ^ 2)) ≤ exp (-8) * (2 / 3 * h) := by
  have hrate : 12 / h ≤ 2 * π ^ 2 / h ^ 2 := by
    have hsquare : h ^ 2 ≤ 3 / 2 * h := by
      rw [sq]
      exact mul_le_mul_of_nonneg_right hstep hh.le
    have hpi : 9 ≤ π ^ 2 := by nlinarith [pi_gt_three]
    rw [div_le_div_iff₀ hh (by positivity)]
    linarith [mul_le_mul_of_nonneg_right hpi hh.le]
  have hrest : 8 ≤ 12 / h := by
    rw [le_div_iff₀ hh]
    linarith
  have hgrow : 12 / h / 8 ≤ exp (12 / h - 8) := le_trans (by linarith) (add_one_le_exp _)
  calc exp (-(2 * π ^ 2 / h ^ 2)) ≤ exp (-(12 / h)) := exp_le_exp.mpr (neg_le_neg hrate)
    _ = exp (-8) * (exp (12 / h - 8))⁻¹ := by
      rw [← exp_neg, ← exp_add]
      ring_nf
    _ ≤ exp (-8) * (12 / h / 8)⁻¹ := by gcongr
    _ = exp (-8) * (2 / 3 * h) := by
      field_simp
      norm_num

/-- If steps are at most 3/2, the values on a grid exceed the integral by less than two values
outside the window. -/
theorem dual_tail_le {h : ℝ} (hh : 0 < h) (hstep : h ≤ 3 / 2) :
    √(2 * π) * (exp (-(2 * π ^ 2 / h ^ 2)) / (1 - exp (-(2 * π ^ 2 / h ^ 2))))
      ≤ h * exp (-(225 / 32)) := by
  have hratio := exp_neg_dual_le hh hstep
  have hrest : 8 / 9 ≤ 1 - exp (-(2 * π ^ 2 / h ^ 2)) := by
    have hproduct : exp (-8) * (2 / 3 * h) ≤ 1 / 9 * 1 := by
      gcongr
      · exact exp_neg_eight_le
      · linarith
    linarith
  have hends : exp (-8) * (63 / 32) ≤ exp (-(225 / 32)) := by
    have hsplit : exp (-(225 / 32)) = exp (-8) * exp (31 / 32) := by
      rw [← exp_add]
      norm_num
    rw [hsplit]
    gcongr
    linarith [add_one_le_exp (31 / 32 : ℝ)]
  calc √(2 * π) * (exp (-(2 * π ^ 2 / h ^ 2)) / (1 - exp (-(2 * π ^ 2 / h ^ 2))))
      ≤ 2.51 * (exp (-8) * (2 / 3 * h) / (8 / 9)) := by
        gcongr
        exact sqrt_two_pi_le
    _ ≤ h * (exp (-8) * (63 / 32)) := by nlinarith [mul_pos hh (exp_pos (-8))]
    _ ≤ h * exp (-(225 / 32)) := by gcongr

/-- Values on a part of a grid, where the next ones to both sides are not yet negligible. -/
theorem grid_sum_le {x h : ℝ} {n : ℕ} (hh : 0 < h) (hstep : h ≤ 3 / 2)
    (hbefore : |x - h| ≤ 15 / 4) (hbehind : |x + n * h| ≤ 15 / 4) :
    h * ∑ i ∈ Finset.range n, bell (x + i * h) ≤ √(2 * π) := by
  have hwider : bell (x - h) + ∑ i ∈ Finset.range n, bell (x + i * h) + bell (x + n * h)
      ≤ gridSum (x - h) h := by
    refine le_trans (le_of_eq ?_) (sum_bell_le_gridSum (x - h) hh (n + 2))
    have hshift (i : ℕ) : x - h + (i + 1 : ℕ) * h = x + i * h := by
      push_cast
      ring
    rw [Finset.sum_range_succ', Finset.sum_range_succ]
    simp only [hshift, Nat.cast_zero, zero_mul, add_zero]
    ring
  have hdual := (gridSum_le (x - h) hh).trans
    (mul_le_mul_of_nonneg_left (theta_le (by positivity)) (sqrt_nonneg _))
  have hends := mul_le_mul_of_nonneg_left (add_le_add (le_bell hbefore) (le_bell hbehind)) hh.le
  have hsum := mul_le_mul_of_nonneg_left hwider hh.le
  linarith [dual_tail_le hh hstep]

/-! ## Two steps -/

theorem bell_add_bell (m h : ℝ) :
    bell (m - h / 2) + bell (m + h / 2)
      = 2 * exp (-(h ^ 2 / 8)) * (exp (-(m ^ 2 / 2)) * cosh (m * h / 2)) := by
  have hleft : bell (m - h / 2)
      = exp (-(h ^ 2 / 8)) * exp (-(m ^ 2 / 2)) * exp (m * h / 2) := by
    rw [bell, ← exp_add, ← exp_add]
    ring_nf
  have hright : bell (m + h / 2)
      = exp (-(h ^ 2 / 8)) * exp (-(m ^ 2 / 2)) * exp (-(m * h / 2)) := by
    rw [bell, ← exp_add, ← exp_add]
    ring_nf
  rw [hleft, hright, cosh_eq]
  ring

theorem mul_exp_neg_sq_le (h : ℝ) : h * exp (-(h ^ 2 / 8)) ≤ 2 * exp (-(1 / 2)) := by
  have hgrow : h / 2 ≤ exp (h ^ 2 / 8 - 1 / 2) := by
    nlinarith [add_one_le_exp (h ^ 2 / 8 - 1 / 2), sq_nonneg (h - 2)]
  calc h * exp (-(h ^ 2 / 8)) = 2 * (h / 2 * exp (-(h ^ 2 / 8))) := by ring
    _ ≤ 2 * (exp (h ^ 2 / 8 - 1 / 2) * exp (-(h ^ 2 / 8))) := by gcongr
    _ = 2 * exp (-(1 / 2)) := by
      rw [← exp_add]
      ring_nf

/-- Up to 1 the hyperbolic cosine grows more slowly than `exp (y ^ 2 / 2)`, which bounds it
everywhere. -/
theorem cosh_le_mul_exp {y : ℝ} (hy : |y| ≤ 1) : cosh y ≤ 1.026 * exp (0.415 * y ^ 2) := by
  have hup := (abs_le.mp (exp_bound hy (n := 6) (by norm_num))).2
  have hdown := (abs_le.mp (exp_bound (x := -y) (by rwa [abs_neg]) (n := 6) (by norm_num))).2
  have hpow : |y| ^ 6 = (y ^ 2) ^ 3 := by rw [← pow_mul, (Even.pow_abs (by decide) y)]
  rw [abs_neg] at hdown
  rw [hpow] at hup hdown
  have hexp := sum_le_exp_of_nonneg (x := 0.415 * y ^ 2) (by positivity) 4
  norm_num [Finset.sum_range_succ, Nat.factorial] at hup hdown hexp
  rw [cosh_eq]
  set s := y ^ 2
  have hs : 0 ≤ s := sq_nonneg y
  have hcosh : (exp y + exp (-y)) / 2 ≤ 1 + s / 2 + s ^ 2 / 24 + 0.00163 * s ^ 3 := by
    have hcube : 0 ≤ s ^ 3 := by positivity
    have hfourth : y ^ 4 = s ^ 2 := by ring
    nlinarith
  -- the difference of the two sums is close to zero near 0.65, and positive
  nlinarith [mul_nonneg hs (sq_nonneg (s - 0.65)), sq_nonneg (s - 0.65)]

theorem exp_neg_mul_cosh_le_one {m h : ℝ} (hh : 0 ≤ h) (hnarrow : h ≤ 2) :
    exp (-(m ^ 2 / 2)) * cosh (m * h / 2) ≤ 1 := by
  have hsquare : m ^ 2 * h ^ 2 ≤ m ^ 2 * 2 ^ 2 := by gcongr
  calc exp (-(m ^ 2 / 2)) * cosh (m * h / 2)
      ≤ exp (-(m ^ 2 / 2)) * exp ((m * h / 2) ^ 2 / 2) := by
        gcongr
        exact cosh_le_exp_half_sq _
    _ ≤ 1 := by
        rw [← exp_add, exp_le_one_iff]
        linarith

theorem exp_neg_mul_cosh_le {m h : ℝ} (hproduct : |m * h / 2| ≤ 1) :
    exp (-(m ^ 2 / 2)) * cosh (m * h / 2) ≤ 1.026 * exp (m ^ 2 * (0.10375 * h ^ 2 - 0.5)) := by
  calc exp (-(m ^ 2 / 2)) * cosh (m * h / 2)
      ≤ exp (-(m ^ 2 / 2)) * (1.026 * exp (0.415 * (m * h / 2) ^ 2)) := by
        gcongr
        exact cosh_le_mul_exp hproduct
    _ = 1.026 * exp (m ^ 2 * (0.10375 * h ^ 2 - 0.5)) := by
        rw [mul_left_comm, ← exp_add]
        ring_nf

/-- The exponent with one end of the window three away: its maximum, near 2.315, is about
-0.6458. -/
theorem wide_pair_exponent_le {h : ℝ} (hlow : 2 ≤ h) (hhigh : h ≤ 3) :
    25 / 58 * h - 1 - h ^ 2 / 8 + (3 - h) ^ 2 * (0.10375 * h ^ 2 - 0.5) ≤ -0.644 := by
  have hbend : 0 ≤ 0.67 - 0.338225 * (h - 2.315) - 0.10375 * (h - 2.315) ^ 2 := by
    nlinarith [mul_nonneg (sub_nonneg.mpr hlow) (sub_nonneg.mpr hhigh)]
  nlinarith [mul_nonneg (sq_nonneg (h - 2.315)) hbend]

theorem exp_wide_pair_exponent_le : exp (-0.644) ≤ 0.5254 := by
  rw [exp_neg, ← one_div, div_le_iff₀ (exp_pos _)]
  have h := sum_le_exp_of_nonneg (x := 0.644) (by norm_num) 6
  norm_num [Finset.sum_range_succ, Nat.factorial] at h
  linarith

/-- Two steps of more than 2.2 standard deviations, where they would best be away from the peak. -/
theorem wide_pair_le {m h : ℝ} (hwide : 2 ≤ h) (hm : |m| + h ≤ 3)
    (hsteep : 0.5 ≤ 0.10375 * h ^ 2) :
    h * exp (-(h ^ 2 / 8)) * (1.026 * exp (m ^ 2 * (0.10375 * h ^ 2 - 0.5))) ≤ 1.2532 := by
  have hhigh : h ≤ 3 := by linarith [abs_nonneg m]
  have hsquare : m ^ 2 ≤ (3 - h) ^ 2 := by
    rw [← sq_abs]
    exact pow_le_pow_left₀ (abs_nonneg m) (by linarith) 2
  have hlength : h ≤ 2.32 * exp (25 / 58 * h - 1) := by linarith [add_one_le_exp (25 / 58 * h - 1)]
  calc h * exp (-(h ^ 2 / 8)) * (1.026 * exp (m ^ 2 * (0.10375 * h ^ 2 - 0.5)))
      ≤ 2.32 * exp (25 / 58 * h - 1) * exp (-(h ^ 2 / 8))
        * (1.026 * exp ((3 - h) ^ 2 * (0.10375 * h ^ 2 - 0.5))) := by
        gcongr
    _ = 2.38032 * exp (25 / 58 * h - 1 - h ^ 2 / 8 + (3 - h) ^ 2 * (0.10375 * h ^ 2 - 0.5)) := by
        rw [exp_add, sub_eq_add_neg (25 / 58 * h - 1), exp_add]
        ring
    _ ≤ 2.38032 * exp (-0.644) := by
        gcongr
        exact wide_pair_exponent_le hwide hhigh
    _ ≤ 1.2532 := by linarith [exp_wide_pair_exponent_le]

theorem pair_le {m h : ℝ} (hh : 0 ≤ h) (hm : |m| + h ≤ 3) :
    h * (bell (m - h / 2) + bell (m + h / 2)) ≤ √(2 * π) := by
  have hpeak : h * exp (-(h ^ 2 / 8)) ≤ 1.2136 := by linarith [mul_exp_neg_sq_le h, exp_neg_half_le]
  have hpos : 0 ≤ h * exp (-(h ^ 2 / 8)) := by positivity
  suffices h * exp (-(h ^ 2 / 8)) * (exp (-(m ^ 2 / 2)) * cosh (m * h / 2)) ≤ 1.2532 by
    rw [bell_add_bell]
    linarith [le_sqrt_two_pi]
  rcases le_total h 2 with hnarrow | hwide
  · have hcenter := exp_neg_mul_cosh_le_one (m := m) hh hnarrow
    linarith [mul_le_mul_of_nonneg_left hcenter hpos]
  · have hproduct : |m * h / 2| ≤ 1 := by
      rw [abs_div, abs_mul, abs_of_nonneg hh, abs_two]
      nlinarith
    refine (mul_le_mul_of_nonneg_left (exp_neg_mul_cosh_le hproduct) hpos).trans ?_
    rcases le_total (0.10375 * h ^ 2) 0.5 with hflat | hsteep
    · have hcenter : exp (m ^ 2 * (0.10375 * h ^ 2 - 0.5)) ≤ 1 := by
        rw [exp_le_one_iff]
        exact mul_nonpos_of_nonneg_of_nonpos (sq_nonneg m) (by linarith)
      nlinarith
    · exact wide_pair_le hwide hm hsteep

/-! ## A window -/

/-- The midpoint rule in two steps, or in four or more, over a part of the window of three standard
deviations to each side. -/
theorem window_sum_le {n : ℕ} (hn : n = 2 ∨ 4 ≤ n) {a b : ℝ} (ha : -3 ≤ a) (hab : a ≤ b)
    (hb : b ≤ 3) :
    (b - a) / n * ∑ i ∈ Finset.range n, bell (a + (i + 1 / 2) * ((b - a) / n)) ≤ √(2 * π) := by
  rcases hn with rfl | hn
  · have hm : |(a + b) / 2| + (b - a) / 2 ≤ 3 := by
      rcases abs_cases ((a + b) / 2) with ⟨h, -⟩ | ⟨h, -⟩ <;> rw [h] <;> linarith
    refine (le_of_eq ?_).trans (pair_le (by linarith) hm)
    rw [Finset.sum_range_succ, Finset.sum_range_one, Nat.cast_ofNat]
    push_cast
    ring_nf
  rcases hab.eq_or_lt with rfl | hlt
  · rw [sub_self, zero_div, zero_mul]
    positivity
  have hcount : (4 : ℝ) ≤ n := by exact_mod_cast hn
  set h := (b - a) / n with hstep
  have hwhole : n * h = b - a := mul_div_cancel₀ _ (by linarith)
  have hh : 0 < h := div_pos (by linarith) (by linarith)
  have hshort : h ≤ 3 / 2 := by nlinarith
  have hheights (i : ℕ) : a + (i + 1 / 2) * h = a + h / 2 + i * h := by ring
  simp only [hheights]
  refine grid_sum_le hh hshort ?_ ?_ <;> rw [abs_le] <;> constructor <;> linarith

end Raster
