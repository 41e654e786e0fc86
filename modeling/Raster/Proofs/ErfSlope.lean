import Mathlib.Analysis.Calculus.Deriv.Inv
import Mathlib.Analysis.Calculus.Deriv.Pow
import Mathlib.Analysis.Convex.Deriv
import Mathlib.Analysis.Convex.Jensen
import Mathlib.Topology.Algebra.Module.ModuleTopology
import Raster.Proofs.ShadowBlur

/-!
# The slope of the error function

The error function itself is steepest at zero. Its rational approximation is
not: the slope grows up to an argument of about 0.0635, falls from there on,
and is at about 0.1319 again what it was at zero (`exists_erfTurns`).

So where a row is blurred, moving away from its middle pays if the row is
short: its near end comes to smaller slopes and its far end to greater ones
(`ErfTurns.exists_slope_lt`). If the row is long enough for the slope at the
far end not to be above the one at zero, moving away never pays
(`ErfTurns.slope_add_le`). That this is the exact bound is because the slope
grows faster than it falls, which comes from the sign of its third derivative
(`erfSlope_sub_le`).
-/

namespace Raster

/-! ## Derivatives -/

/-- The derivative of a step of Horner's rule. -/
theorem hasDerivAt_horner (c : ℝ) {f : ℝ → ℝ} {f' a : ℝ} (hf : HasDerivAt f f' a) :
    HasDerivAt (fun x => c + f x * x) (f' * a + f a) a := by
  simpa using (hf.fun_mul (hasDerivAt_id' a)).const_add c

theorem hasDerivAt_linear (c k a : ℝ) : HasDerivAt (fun x => c + k * x) k a := by
  simpa using hasDerivAt_horner c (hasDerivAt_const a k)

/-- The derivative of `erfBase`. -/
noncomputable def erfBase₁ (a : ℝ) : ℝ :=
  0.278393 + (0.460778 + (0.002916 + 0.312432 * a) * a) * a

/-- The second derivative of `erfBase`. -/
noncomputable def erfBase₂ (a : ℝ) : ℝ := 0.460778 + (0.005832 + 0.937296 * a) * a

/-- The third derivative of `erfBase`. -/
noncomputable def erfBase₃ (a : ℝ) : ℝ := 0.005832 + 1.874592 * a

theorem hasDerivAt_erfBase (a : ℝ) : HasDerivAt erfBase (erfBase₁ a) a := by
  refine (hasDerivAt_horner 1 (hasDerivAt_horner 0.278393 (hasDerivAt_horner 0.230389
    (hasDerivAt_linear 0.000972 0.078108 a)))).congr_deriv ?_
  rw [erfBase₁]
  ring

theorem hasDerivAt_erfBase₁ (a : ℝ) : HasDerivAt erfBase₁ (erfBase₂ a) a := by
  refine (hasDerivAt_horner 0.278393 (hasDerivAt_horner 0.460778
    (hasDerivAt_linear 0.002916 0.312432 a))).congr_deriv ?_
  rw [erfBase₂]
  ring

theorem hasDerivAt_erfBase₂ (a : ℝ) : HasDerivAt erfBase₂ (erfBase₃ a) a := by
  refine (hasDerivAt_horner 0.460778 (hasDerivAt_linear 0.005832 0.937296 a)).congr_deriv ?_
  rw [erfBase₃]
  ring

theorem hasDerivAt_erfBase₃ (a : ℝ) : HasDerivAt erfBase₃ 1.874592 a :=
  hasDerivAt_linear 0.005832 1.874592 a

/-- A quotient by a power of the base, and its derivative as another one. -/
theorem hasDerivAt_div_erfBase {f : ℝ → ℝ} {f' a : ℝ} (ha : 0 ≤ a) (hf : HasDerivAt f f' a)
    (n : ℕ) : HasDerivAt (fun x => f x / erfBase x ^ n)
      ((f' * erfBase a - n * f a * erfBase₁ a) / erfBase a ^ (n + 1)) a := by
  have hbase : erfBase a ≠ 0 := (zero_lt_one.trans_le (one_le_erfBase ha)).ne'
  refine (hf.fun_div ((hasDerivAt_erfBase a).fun_pow n) (pow_ne_zero n hbase)).congr_deriv ?_
  rcases n with - | n
  · simp
    field_simp
  · rw [Nat.add_sub_cancel]
    field_simp
    ring

/-- A quarter of the slope of the error function, at an argument that is not negative. -/
noncomputable def erfSlope (a : ℝ) : ℝ := erfBase₁ a / erfBase a ^ 5

/-- How the slope changes, up to a positive factor. -/
noncomputable def erfBend (a : ℝ) : ℝ := erfBase₂ a * erfBase a - 5 * erfBase₁ a ^ 2

/-- The derivative of `erfBend`. -/
noncomputable def erfBend₁ (a : ℝ) : ℝ := erfBase₃ a * erfBase a - 9 * erfBase₁ a * erfBase₂ a

/-- The second derivative of `erfBend`. -/
noncomputable def erfBend₂ (a : ℝ) : ℝ :=
  1.874592 * erfBase a - 8 * erfBase₁ a * erfBase₃ a - 9 * erfBase₂ a ^ 2

theorem hasDerivAt_erfBend (a : ℝ) : HasDerivAt erfBend (erfBend₁ a) a := by
  refine (((hasDerivAt_erfBase₂ a).fun_mul (hasDerivAt_erfBase a)).fun_sub
    (((hasDerivAt_erfBase₁ a).fun_pow 2).const_mul 5)).congr_deriv ?_
  rw [erfBend₁]
  ring

theorem hasDerivAt_erfBend₁ (a : ℝ) : HasDerivAt erfBend₁ (erfBend₂ a) a := by
  refine (((hasDerivAt_erfBase₃ a).fun_mul (hasDerivAt_erfBase a)).fun_sub
    (((hasDerivAt_erfBase₁ a).const_mul 9).fun_mul (hasDerivAt_erfBase₂ a))).congr_deriv ?_
  rw [erfBend₂]
  ring

theorem hasDerivAt_erfSlope {a : ℝ} (ha : 0 ≤ a) :
    HasDerivAt erfSlope (erfBend a / erfBase a ^ 6) a := by
  refine (hasDerivAt_div_erfBase ha (hasDerivAt_erfBase₁ a) 5).congr_deriv ?_
  rw [erfBend]
  push_cast
  ring

/-! ## One maximum -/

theorem erfBend₁_neg {a : ℝ} (ha : 0 ≤ a) : erfBend₁ a < 0 := by
  rw [erfBend₁, erfBase₁, erfBase₂, erfBase₃, erfBase]
  linarith [pow_nonneg ha 2, pow_nonneg ha 3, pow_nonneg ha 4, pow_nonneg ha 5]

theorem erfBend_strictAntiOn : StrictAntiOn erfBend (Set.Ici 0) := by
  refine strictAntiOn_of_hasDerivWithinAt_neg (convex_Ici 0)
    (fun a _ => (hasDerivAt_erfBend a).continuousAt.continuousWithinAt)
    (fun a _ => (hasDerivAt_erfBend a).hasDerivWithinAt) fun a ha => ?_
  rw [interior_Ici] at ha
  exact erfBend₁_neg ha.le

theorem erfBend_pos {a : ℝ} (ha : 0 ≤ a) (hle : a ≤ 0.063) : 0 < erfBend a := by
  refine lt_of_lt_of_le ?_ (erfBend_strictAntiOn.antitoneOn ha (by norm_num) hle)
  norm_num [erfBend, erfBase, erfBase₁, erfBase₂]

theorem erfBend_neg {a : ℝ} (hle : 0.065 ≤ a) : erfBend a < 0 := by
  refine lt_of_le_of_lt (erfBend_strictAntiOn.antitoneOn (a := 0.065) ?_ ?_ hle) ?_
  · norm_num
  · exact le_trans (by norm_num) hle
  · norm_num [erfBend, erfBase, erfBase₁, erfBase₂]

/-- The slope grows up to a point, near 0.0635, and falls from there on. -/
theorem exists_steepest : ∃ m, 0.063 ≤ m ∧ m ≤ 0.065
    ∧ StrictMonoOn erfSlope (Set.Icc 0 m) ∧ StrictAntiOn erfSlope (Set.Ici m) := by
  have hbase {a : ℝ} (ha : 0 ≤ a) : 0 < erfBase a := zero_lt_one.trans_le (one_le_erfBase ha)
  obtain ⟨m, ⟨hlow, hhigh⟩, hzero⟩ : (0 : ℝ) ∈ erfBend '' Set.Icc 0.063 0.065 := by
    refine intermediate_value_Icc' (by norm_num)
      (fun a _ => (hasDerivAt_erfBend a).continuousAt.continuousWithinAt) ⟨?_, ?_⟩
    · exact (erfBend_neg le_rfl).le
    · exact (erfBend_pos (by norm_num) le_rfl).le
  have hm : 0 ≤ m := le_trans (by norm_num) hlow
  refine ⟨m, hlow, hhigh, ?_, ?_⟩
  · refine strictMonoOn_of_hasDerivWithinAt_pos (convex_Icc 0 m)
      (fun a ha => (hasDerivAt_erfSlope ha.1).continuousAt.continuousWithinAt)
      (fun a ha => (hasDerivAt_erfSlope (interior_subset ha).1).hasDerivWithinAt) fun a ha => ?_
    rw [interior_Icc] at ha
    refine div_pos ?_ (pow_pos (hbase ha.1.le) 6)
    rw [← hzero]
    exact erfBend_strictAntiOn ha.1.le hm ha.2
  · refine strictAntiOn_of_hasDerivWithinAt_neg (convex_Ici m)
      (fun a ha => (hasDerivAt_erfSlope (hm.trans ha)).continuousAt.continuousWithinAt)
      (fun a ha => (hasDerivAt_erfSlope (hm.trans (interior_subset ha))).hasDerivWithinAt)
      fun a ha => ?_
    rw [interior_Ici] at ha
    refine div_neg_of_neg_of_pos ?_ (pow_pos (hbase (hm.trans ha.le)) 6)
    rw [← hzero]
    exact erfBend_strictAntiOn hm (hm.trans ha.le) ha

/-- Beyond the steepest point, near 0.1319, the slope is what it was at zero. -/
theorem exists_flat : ∃ v, 0.13155 ≤ v ∧ v ≤ 0.1322 ∧ erfSlope v = erfSlope 0 := by
  obtain ⟨v, ⟨hlow, hhigh⟩, hflat⟩ : erfSlope 0 ∈ erfSlope '' Set.Icc 0.13155 0.1322 := by
    refine intermediate_value_Icc' (by norm_num) (fun a ha => ?_) ⟨?_, ?_⟩
    · have ha' : 0 ≤ a := le_trans (by norm_num) ha.1
      exact (hasDerivAt_erfSlope ha').continuousAt.continuousWithinAt
    · norm_num [erfSlope, erfBase, erfBase₁]
    · norm_num [erfSlope, erfBase, erfBase₁]
  exact ⟨v, hlow, hhigh, hflat⟩

/-! ## The slope before and after its maximum -/

/-- The numerator of the second derivative of the slope. -/
noncomputable def erfTwist (a : ℝ) : ℝ := erfBend₁ a * erfBase a - 6 * erfBend a * erfBase₁ a

theorem hasDerivAt_erfSlope₁ {a : ℝ} (ha : 0 ≤ a) :
    HasDerivAt (fun x => erfBend x / erfBase x ^ 6) (erfTwist a / erfBase a ^ 7) a := by
  refine (hasDerivAt_div_erfBase ha (hasDerivAt_erfBend a) 6).congr_deriv ?_
  rw [erfTwist]
  push_cast
  ring

theorem hasDerivAt_erfTwist (a : ℝ) : HasDerivAt erfTwist
    (erfBend₂ a * erfBase a - 5 * erfBend₁ a * erfBase₁ a - 6 * erfBend a * erfBase₂ a) a := by
  refine (((hasDerivAt_erfBend₁ a).fun_mul (hasDerivAt_erfBase a)).fun_sub
    (((hasDerivAt_erfBend a).const_mul 6).fun_mul (hasDerivAt_erfBase₁ a))).congr_deriv ?_
  ring

theorem hasDerivAt_erfSlope₂ {a : ℝ} (ha : 0 ≤ a) :
    HasDerivAt (fun x => erfTwist x / erfBase x ^ 7)
      ((erfBend₂ a * erfBase a ^ 2 - 12 * erfBend₁ a * erfBase₁ a * erfBase a
        + erfBend a * (42 * erfBase₁ a ^ 2 - 6 * erfBase₂ a * erfBase a)) / erfBase a ^ 8) a := by
  refine (hasDerivAt_div_erfBase ha (hasDerivAt_erfTwist a) 7).congr_deriv ?_
  rw [erfTwist]
  push_cast
  ring

section
variable {a : ℝ} (ha : 0 ≤ a) (hle : a ≤ 0.14)
include ha hle

theorem erfBase_mem_near_zero : erfBase a ∈ Set.Icc (1 : ℝ) 1.05 := by
  refine ⟨one_le_erfBase ha, (erfBase_mono ha hle).trans ?_⟩
  norm_num [erfBase]

theorem erfBase₁_mem_near_zero : erfBase₁ a ∈ Set.Icc (0.278 : ℝ) 0.344 := by
  have hmono : erfBase₁ a ≤ erfBase₁ 0.14 := by
    unfold erfBase₁
    gcongr
  refine ⟨?_, hmono.trans (by norm_num [erfBase₁])⟩
  rw [erfBase₁]
  linarith [show 0 ≤ (0.460778 + (0.002916 + 0.312432 * a) * a) * a by positivity]

theorem erfBase₂_mem_near_zero : erfBase₂ a ∈ Set.Icc (0.46 : ℝ) 0.48 := by
  have hmono : erfBase₂ a ≤ erfBase₂ 0.14 := by
    unfold erfBase₂
    gcongr
  refine ⟨?_, hmono.trans (by norm_num [erfBase₂])⟩
  rw [erfBase₂]
  linarith [show 0 ≤ (0.005832 + 0.937296 * a) * a by positivity]

theorem erfBase₃_mem_near_zero : erfBase₃ a ∈ Set.Icc (0 : ℝ) 0.27 := by
  rw [erfBase₃]
  constructor <;> linarith

theorem erfBend_mem_near_zero : erfBend a ∈ Set.Icc (-0.15 : ℝ) 0.12 := by
  obtain ⟨hb, hb'⟩ := erfBase_mem_near_zero ha hle
  obtain ⟨hb₁, hb₁'⟩ := erfBase₁_mem_near_zero ha hle
  obtain ⟨hb₂, hb₂'⟩ := erfBase₂_mem_near_zero ha hle
  rw [erfBend]
  constructor <;> nlinarith

theorem erfBend₁_le_near_zero : erfBend₁ a ≤ -0.8 := by
  obtain ⟨hb, hb'⟩ := erfBase_mem_near_zero ha hle
  obtain ⟨hb₁, hb₁'⟩ := erfBase₁_mem_near_zero ha hle
  obtain ⟨hb₂, hb₂'⟩ := erfBase₂_mem_near_zero ha hle
  obtain ⟨hb₃, hb₃'⟩ := erfBase₃_mem_near_zero ha hle
  rw [erfBend₁]
  nlinarith

theorem le_erfBend₂_near_zero : -1.1 ≤ erfBend₂ a := by
  obtain ⟨hb, hb'⟩ := erfBase_mem_near_zero ha hle
  obtain ⟨hb₁, hb₁'⟩ := erfBase₁_mem_near_zero ha hle
  obtain ⟨hb₂, hb₂'⟩ := erfBase₂_mem_near_zero ha hle
  obtain ⟨hb₃, hb₃'⟩ := erfBase₃_mem_near_zero ha hle
  rw [erfBend₂]
  nlinarith

/-- The numerator of the third derivative of the slope is about 4 here, so it is enough to bound its
factors one by one. -/
theorem erfSlope₃_nonneg_near_zero :
    0 ≤ erfBend₂ a * erfBase a ^ 2 - 12 * erfBend₁ a * erfBase₁ a * erfBase a
      + erfBend a * (42 * erfBase₁ a ^ 2 - 6 * erfBase₂ a * erfBase a) := by
  obtain ⟨hb, hb'⟩ := erfBase_mem_near_zero ha hle
  obtain ⟨hb₁, hb₁'⟩ := erfBase₁_mem_near_zero ha hle
  obtain ⟨hb₂, hb₂'⟩ := erfBase₂_mem_near_zero ha hle
  obtain ⟨hn, hn'⟩ := erfBend_mem_near_zero ha hle
  have hn₁ := erfBend₁_le_near_zero ha hle
  have hn₂ := le_erfBend₂_near_zero ha hle
  have hfirst : -1.22 ≤ erfBend₂ a * erfBase a ^ 2 := by
    have hsquare : erfBase a ^ 2 ≤ 1.05 ^ 2 := by gcongr
    nlinarith [sq_nonneg (erfBase a)]
  have hsecond : 2.6 ≤ -12 * erfBend₁ a * erfBase₁ a * erfBase a := by
    have hproduct : 0.278 * 1 ≤ erfBase₁ a * erfBase a := by gcongr
    nlinarith
  have hthird : |42 * erfBase₁ a ^ 2 - 6 * erfBase₂ a * erfBase a| ≤ 2.3 := by
    rw [abs_le]
    constructor <;> nlinarith
  have hbend : |erfBend a| ≤ 0.15 := abs_le.mpr ⟨hn, by linarith⟩
  have hbound : |erfBend a * (42 * erfBase₁ a ^ 2 - 6 * erfBase₂ a * erfBase a)|
      ≤ 0.15 * 2.3 := by
    rw [abs_mul]
    gcongr
  linarith [neg_le_of_abs_le hbound]

end

theorem erfSlope₂_monotoneOn :
    MonotoneOn (fun x => erfTwist x / erfBase x ^ 7) (Set.Icc 0 0.14) := by
  refine monotoneOn_of_hasDerivWithinAt_nonneg (convex_Icc _ _)
    (fun a ha => (hasDerivAt_erfSlope₂ ha.1).continuousAt.continuousWithinAt)
    (fun a ha => (hasDerivAt_erfSlope₂ (interior_subset ha).1).hasDerivWithinAt) fun a ha => ?_
  obtain ⟨hlow, hhigh⟩ := interior_subset ha
  have hbase := zero_lt_one.trans_le (one_le_erfBase hlow)
  exact div_nonneg (erfSlope₃_nonneg_near_zero hlow hhigh) (pow_pos hbase 8).le

section
variable {v x : ℝ} (hx : 0 ≤ x) (hfar : 0 ≤ v - x)
include hx hfar

theorem hasDerivAt_slope_sub_mirror : HasDerivAt (fun x => erfSlope x - erfSlope (v - x))
    (erfBend x / erfBase x ^ 6 + erfBend (v - x) / erfBase (v - x) ^ 6) x := by
  refine ((hasDerivAt_erfSlope hx).fun_sub
    ((hasDerivAt_erfSlope hfar).comp x ((hasDerivAt_id' x).const_sub v))).congr_deriv ?_
  ring

theorem hasDerivAt_slope_sub_mirror₁ :
    HasDerivAt (fun x => erfBend x / erfBase x ^ 6 + erfBend (v - x) / erfBase (v - x) ^ 6)
      (erfTwist x / erfBase x ^ 7 - erfTwist (v - x) / erfBase (v - x) ^ 7) x := by
  refine ((hasDerivAt_erfSlope₁ hx).fun_add
    ((hasDerivAt_erfSlope₁ hfar).comp x ((hasDerivAt_id' x).const_sub v))).congr_deriv ?_
  ring

end

theorem slope_sub_mirror_concaveOn {v : ℝ} (hv : v ≤ 0.14) :
    ConcaveOn ℝ (Set.Icc 0 (v / 2)) fun x => erfSlope x - erfSlope (v - x) := by
  have hfar {x : ℝ} (hx : x ∈ Set.Icc 0 (v / 2)) : 0 ≤ v - x := by linarith [hx.1, hx.2]
  refine concaveOn_of_hasDerivWithinAt2_nonpos (convex_Icc _ _)
    (fun x hx => (hasDerivAt_slope_sub_mirror hx.1 (hfar hx)).continuousAt.continuousWithinAt)
    (fun x hx => (hasDerivAt_slope_sub_mirror (interior_subset hx).1
      (hfar (interior_subset hx))).hasDerivWithinAt)
    (fun x hx => (hasDerivAt_slope_sub_mirror₁ (interior_subset hx).1
      (hfar (interior_subset hx))).hasDerivWithinAt) fun x hx => ?_
  obtain ⟨hlow, hhigh⟩ := interior_subset hx
  refine sub_nonpos.mpr (erfSlope₂_monotoneOn ?_ ?_ ?_)
  · constructor <;> linarith
  · constructor <;> linarith
  · linarith

/-- Towards its maximum the slope grows faster than it falls beyond, so at the same distance from
the ends of an interval where it is the same, it is greater at the near end. -/
theorem erfSlope_sub_le {v u : ℝ} (hv : v ≤ 0.14) (hflat : erfSlope v = erfSlope 0) (hu : 0 ≤ u)
    (huv : u ≤ v / 2) : erfSlope (v - u) ≤ erfSlope u := by
  have hends := (slope_sub_mirror_concaveOn hv).min_le_of_mem_Icc (x := 0) (y := v / 2)
    ⟨le_rfl, by linarith⟩ ⟨by linarith, le_rfl⟩ ⟨hu, huv⟩
  rw [sub_zero, hflat, sub_self, sub_half, sub_self, min_self] at hends
  linarith

/-! ## Two arguments at the ends of an interval -/

/-- Where the slope is greatest, and where it is again what it is at zero. -/
structure ErfTurns (steepest flat : ℝ) : Prop where
  le_steepest : 0.063 ≤ steepest
  steepest_le : steepest ≤ 0.065
  le_flat : 0.13155 ≤ flat
  flat_le : flat ≤ 0.1322
  slope_flat : erfSlope flat = erfSlope 0
  rises : StrictMonoOn erfSlope (Set.Icc 0 steepest)
  falls : StrictAntiOn erfSlope (Set.Ici steepest)

theorem exists_erfTurns : ∃ flat steepest, ErfTurns steepest flat := by
  obtain ⟨m, hm, hm', hrises, hfalls⟩ := exists_steepest
  obtain ⟨v, hv, hv', hflat⟩ := exists_flat
  exact ⟨v, m, hm, hm', hv, hv', hflat, hrises, hfalls⟩

/-- The positive argument, about 0.1319, at which the slope is what it is at zero. -/
noncomputable def erfFlat : ℝ := exists_erfTurns.choose

theorem exists_steepest_erfTurns : ∃ steepest, ErfTurns steepest erfFlat :=
  exists_erfTurns.choose_spec

namespace ErfTurns

variable {steepest flat : ℝ} (h : ErfTurns steepest flat)
include h

/-- An interval of at least the length of `flat` around a positive argument: the slope is no more
at its far end than at its near end. -/
theorem slope_add_le {b x : ℝ} (hb : flat ≤ 2 * b) (hx : 0 ≤ x) :
    erfSlope (x + b) ≤ erfSlope |x - b| := by
  obtain ⟨hm, hm', hv, hv', hflat, hrises, hfalls⟩ := h
  have hlonger : flat ≤ x + b + |x - b| := by linarith [neg_abs_le (x - b)]
  have hordered : |x - b| ≤ x + b := abs_le.mpr ⟨by linarith, by linarith⟩
  rcases le_total steepest |x - b| with hfar | hnear
  · exact hfalls.antitoneOn hfar (hfar.trans hordered) hordered
  · calc erfSlope (x + b) ≤ erfSlope (flat - |x - b|) := by
          refine hfalls.antitoneOn ?_ ?_ (by linarith)
          · rw [Set.mem_Ici]
            linarith
          · rw [Set.mem_Ici]
            linarith
      _ ≤ erfSlope |x - b| :=
          erfSlope_sub_le (by linarith) hflat (abs_nonneg _) (by linarith)

/-- The slope before `flat` is greater than at zero. -/
theorem slope_zero_lt {a : ℝ} (ha : 0 < a) (hlt : a < flat) : erfSlope 0 < erfSlope a := by
  obtain ⟨hm, -, hv, -, hflat, hrises, hfalls⟩ := h
  rcases le_total a steepest with hnear | hfar
  · exact hrises ⟨le_rfl, by linarith⟩ ⟨ha.le, hnear⟩ ha
  · rw [← hflat]
    exact hfalls hfar (hfar.trans hlt.le) hlt

/-- If an interval is shorter than `flat`, then near zero the slope is greater at its far end. -/
theorem exists_slope_lt {s : ℝ} (hs : 0 ≤ s) (hlt : s < flat) :
    ∃ r, 0 < r ∧ ∀ u w, 0 ≤ u → u ≤ r → u < w → w ≤ s + 2 * r → erfSlope u < erfSlope w := by
  obtain ⟨W, hW, hW'⟩ := exists_between hlt
  have hrise : erfSlope 0 < erfSlope W := h.slope_zero_lt (hs.trans_lt hW) hW'
  -- near zero the slope is still below the one at a point before `flat`
  have hnear : ∀ᶠ u in nhds 0, erfSlope u < erfSlope W :=
    (hasDerivAt_erfSlope le_rfl).continuousAt.eventually_lt_const hrise
  obtain ⟨r, hr, hball⟩ := Metric.eventually_nhds_iff.mp hnear
  refine ⟨min (r / 2) ((W - s) / 2), lt_min (by linarith) (by linarith), ?_⟩
  intro u w hu hur huw hw
  have hu' : u ≤ r / 2 := hur.trans (min_le_left _ _)
  have hw' : w ≤ W := by linarith [min_le_right (r / 2) ((W - s) / 2)]
  obtain ⟨hm, -, -, -, -, hrises, hfalls⟩ := h
  rcases le_total w steepest with hbefore | hbehind
  · exact hrises ⟨hu, huw.le.trans hbefore⟩ ⟨hu.trans huw.le, hbefore⟩ huw
  · have hdist : dist u 0 < r := by
      rw [Real.dist_eq, sub_zero, abs_of_nonneg hu]
      linarith
    exact (hball hdist).trans_le (hfalls.antitoneOn hbehind (hbehind.trans hw') hw')

end ErfTurns

/-! ## The error function -/

/-- The error function has a derivative everywhere, also where its two halves meet. -/
theorem hasDerivAt_erf (v : ℝ) : HasDerivAt erf (4 * erfSlope |v|) v := by
  have hright {v : ℝ} (hv : 0 ≤ v) : HasDerivWithinAt erf (4 * erfSlope v) (Set.Ici 0) v := by
    have hquotient := (hasDerivAt_div_erfBase hv (hasDerivAt_const v 1) 4).const_sub 1
    refine (hquotient.congr_deriv ?_).hasDerivWithinAt.congr (fun x hx => erf_of_nonneg hx)
      (erf_of_nonneg hv)
    rw [erfSlope]
    push_cast
    ring
  have hleft {v : ℝ} (hv : v ≤ 0) : HasDerivWithinAt erf (4 * erfSlope (-v)) (Set.Iic 0) v := by
    have hodd : (fun x => -erf (-x)) = (erf : ℝ → ℝ) := funext fun x => by rw [erf_neg, neg_neg]
    have hside : Set.MapsTo (fun x : ℝ => -x) (Set.Iic 0) (Set.Ici 0) :=
      fun x hx => neg_nonneg.mpr (Set.mem_Iic.mp hx)
    have hneg := (hright (neg_nonneg.mpr hv)).comp v (hasDerivAt_neg v).hasDerivWithinAt hside
    rw [← hodd]
    refine hneg.fun_neg.congr_deriv ?_
    ring
  rcases lt_trichotomy v 0 with hv | rfl | hv
  · rw [abs_of_neg hv]
    exact (hleft hv.le).hasDerivAt (Iic_mem_nhds hv)
  · have hboth := (hleft le_rfl).union (by simpa using hright le_rfl)
    rw [Set.Iic_union_Ici, hasDerivWithinAt_univ] at hboth
    simpa using hboth
  · rw [abs_of_pos hv]
    exact (hright hv.le).hasDerivAt (Ici_mem_nhds hv)

end Raster
