import Raster.Proofs.ErfSlope
import Raster.Proofs.ShadowCoverage
import Raster.Proofs.ShadowSymmetry

/-!
# Where shadows fall off

The further a point is from the middle of a row, the less a shadow covers it,
unless the shadow is narrow: for corners of one radius, this holds if and only
if the straight part of the top side is at least about 0.1865 blur radii wide
(`Shadow.falls_off_iff`). With a shorter one there are rows that grow darker
at first, however many samples are taken.

A row whose ends are far enough apart falls off (`blurBetween_antitoneOn`).
Every row is at least as wide as the straight part, and the rows beside the
top side are hardly wider (`rowHalfWidth_le_of_near_top`). A point that is
almost out of reach above the shape sees nothing but those
(`Shadow.Proper.not_falls_off_of_narrow`).
-/

namespace Raster

/-! ## Rows -/

theorem hasDerivAt_blurBetween (half scale x : ℝ) : HasDerivAt (blurBetween half scale)
    (2 * scale * (erfSlope |(x + half) * scale| - erfSlope |(x - half) * scale|)) x := by
  have hright : HasDerivAt (fun x => (x + half) * scale) scale x := by
    simpa using ((hasDerivAt_id' x).add_const half).mul_const scale
  have hleft : HasDerivAt (fun x => (x - half) * scale) scale x := by
    simpa using ((hasDerivAt_id' x).sub_const half).mul_const scale
  have hhigh := (((hasDerivAt_erf _).comp x hright).const_mul 0.5).const_add 0.5
  have hlow := (((hasDerivAt_erf _).comp x hleft).const_mul 0.5).const_add 0.5
  refine (hhigh.fun_sub hlow).congr_deriv ?_
  ring

section
variable {half scale : ℝ} (hscale : 0 < scale)
include hscale

/-- A row whose ends are far enough apart falls off. -/
theorem blurBetween_antitoneOn {steepest flat : ℝ} (h : ErfTurns steepest flat)
    (hwide : flat ≤ 2 * (half * scale)) : AntitoneOn (blurBetween half scale) (Set.Ici 0) := by
  have hhalf : 0 ≤ half * scale := by linarith [h.le_flat]
  refine antitoneOn_of_hasDerivWithinAt_nonpos (convex_Ici 0)
    (fun x _ => (hasDerivAt_blurBetween half scale x).continuousAt.continuousWithinAt)
    (fun x _ => (hasDerivAt_blurBetween half scale x).hasDerivWithinAt) fun x hx => ?_
  rw [interior_Ici] at hx
  have hx' : 0 ≤ x * scale := (mul_pos hx hscale).le
  have hslope := h.slope_add_le hwide hx'
  rw [add_mul, sub_mul, abs_of_nonneg (add_nonneg hx' hhalf)]
  exact mul_nonpos_of_nonneg_of_nonpos (by linarith) (sub_nonpos.mpr hslope)

/-- A row grows darker where its far end is on the steeper slope. -/
theorem blurBetween_lt {low high : ℝ} (hlt : low < high) (hslope : ∀ x, low < x → x < high →
      erfSlope |(x - half) * scale| < erfSlope |(x + half) * scale|) :
    blurBetween half scale low < blurBetween half scale high := by
  refine strictMonoOn_of_hasDerivWithinAt_pos (convex_Icc low high)
    (fun x _ => (hasDerivAt_blurBetween half scale x).continuousAt.continuousWithinAt)
    (fun x _ => (hasDerivAt_blurBetween half scale x).hasDerivWithinAt) (fun x hx => ?_)
    (Set.left_mem_Icc.mpr hlt.le) (Set.right_mem_Icc.mpr hlt.le) hlt
  rw [interior_Icc] at hx
  exact mul_pos (by linarith) (sub_pos.mpr (hslope x hx.1 hx.2))

end

theorem blurBetween_abs (half scale x : ℝ) :
    blurBetween half scale |x| = blurBetween half scale x := by
  rcases abs_choice x with h | h <;> rw [h]
  exact blurBetween_neg half scale x

/-- If a straight part is too short, the rows that are hardly wider grow darker just beyond it. -/
theorem exists_blurBetween_lt {steepest flat : ℝ} (h : ErfTurns steepest flat) {scale short : ℝ}
    (hscale : 0 < scale) (hshort : 0 ≤ short) (hlt : 2 * (short * scale) < flat) :
    ∃ more, 0 < more ∧ ∀ half, 0 < half → short ≤ half → half ≤ short + more →
      blurBetween half scale short < blurBetween half scale (short + more) := by
  obtain ⟨r, hr, hslope⟩ := h.exists_slope_lt (by positivity) hlt
  have hmore : r / scale * scale = r := div_mul_cancel₀ r hscale.ne'
  refine ⟨r / scale, by positivity, fun half hhalf hlow hhigh => ?_⟩
  refine blurBetween_lt hscale (by linarith [div_pos hr hscale]) fun x hx hx' => ?_
  have hfar : 0 ≤ (x + half) * scale := mul_nonneg (by linarith) hscale.le
  rw [abs_of_nonneg hfar, abs_mul, abs_of_pos hscale]
  refine hslope _ _ (by positivity) ?_ ?_ ?_
  · rw [← hmore]
    refine mul_le_mul_of_nonneg_right (abs_le.mpr ⟨?_, ?_⟩) hscale.le <;> linarith
  · refine mul_lt_mul_of_pos_right (abs_lt.mpr ⟨?_, ?_⟩) hscale <;> linarith
  · calc (x + half) * scale ≤ (2 * short + 2 * (r / scale)) * scale :=
          mul_le_mul_of_nonneg_right (by linarith) hscale.le
      _ = 2 * (short * scale) + 2 * r := by linear_combination 2 * hmore

/-! ## Widths of rows -/

theorem straight_le_rowHalfWidth (y radius halfWidth halfHeight : ℝ) :
    halfWidth - radius ≤ rowHalfWidth y radius halfWidth halfHeight :=
  le_add_of_nonneg_right (Real.sqrt_nonneg _)

theorem rowHalfWidth_pos {y radius halfWidth halfHeight : ℝ} (hfit : radius ≤ halfWidth)
    (hwidth : 0 < halfWidth) (hy : |y| < halfHeight) :
    0 < rowHalfWidth y radius halfWidth halfHeight := by
  rcases hfit.lt_or_eq with hlt | rfl
  · exact (sub_pos.mpr hlt).trans_le (straight_le_rowHalfWidth _ _ _ _)
  · have hdelta : -radius < min (halfHeight - radius - |y|) 0 := lt_min (by linarith) (by linarith)
    have hdelta' : min (halfHeight - radius - |y|) 0 ≤ 0 := min_le_right _ _
    show 0 < radius - radius + √(max 0 (radius * radius
      - min (halfHeight - radius - |y|) 0 * min (halfHeight - radius - |y|) 0))
    rw [sub_self, zero_add]
    refine Real.sqrt_pos.mpr (lt_max_of_lt_right ?_)
    nlinarith

theorem rowHalfWidth_le_of_near_top {y radius halfWidth halfHeight depth more : ℝ}
    (hradius : 0 ≤ radius) (hdepth : 0 ≤ depth) (hmore : 0 ≤ more)
    (hsmall : 2 * radius * depth ≤ more ^ 2) (hy : halfHeight - depth ≤ |y|) :
    rowHalfWidth y radius halfWidth halfHeight ≤ halfWidth - radius + more := by
  refine add_le_add_right (Real.sqrt_le_iff.mpr ⟨hmore, max_le (sq_nonneg more) ?_⟩) _
  show radius * radius - min (halfHeight - radius - |y|) 0 * min (halfHeight - radius - |y|) 0
    ≤ more ^ 2
  have hdelta : min (halfHeight - radius - |y|) 0 ≤ depth - radius :=
    (min_le_left _ _).trans (by linarith)
  have hdelta' : min (halfHeight - radius - |y|) 0 ≤ 0 := min_le_right _ _
  generalize min (halfHeight - radius - |y|) 0 = delta at hdelta hdelta'
  rcases le_total depth radius with hin | hout
  · nlinarith
  · nlinarith

namespace Shadow

/-- On each row, the coverage of a point is no more than that of one horizontally nearer to the
centre. -/
def FallsOff (s : Shadow ℝ) (n : ℕ) : Prop :=
  ∀ p q : Point ℝ, p.y = q.y → |p.x - s.bounds.center.x| ≤ |q.x - s.bounds.center.x| →
    s.coverage q (Scalar.ofNat n) ≤ s.coverage p (Scalar.ofNat n)

/-! ## Points at the same height -/

section
variable {s : Shadow ℝ} {p q : Point ℝ} (hy : p.y = q.y)
include hy

theorem clampToShape_of_same_height (y : ℝ) : s.clampToShape q y = s.clampToShape p y := by
  have hsame : (q.sub s.bounds.center).y = (p.sub s.bounds.center).y :=
    congrArg (· - s.bounds.center.y) hy.symm
  rw [clampToShape, clampToShape, hsame]

theorem sampleStep_of_same_height (n : ℕ) : s.sampleStep q n = s.sampleStep p n := by
  simp only [sampleStep, windowStart, windowStop, clampToShape_of_same_height hy]

theorem sampleHeight_of_same_height (n i : ℕ) : s.sampleHeight q n i = s.sampleHeight p n i := by
  simp only [sampleHeight, windowStart, sampleStep_of_same_height hy,
    clampToShape_of_same_height hy]

variable (hblur : minBlurRadius ≤ s.blurRadius) (n : ℕ)
include hblur

theorem coverage_le_of_rows_le (hs : s.Proper)
    (hrows : ∀ y, s.rowWith q Real.exp Real.sqrt y ≤ s.rowWith p Real.exp Real.sqrt y) :
    s.coverage q (Scalar.ofNat n) ≤ s.coverage p (Scalar.ofNat n) := by
  rw [coverage_eq_sum hblur, coverage_eq_sum hblur]
  refine Finset.sum_le_sum fun i _ => ?_
  rw [sampleHeight_of_same_height hy, sampleStep_of_same_height hy]
  have hdensity := gaussian_pos (s.sampleHeight p n i) (minBlurRadius_pos.trans_le hblur)
  exact mul_le_mul_of_nonneg_right (mul_le_mul_of_nonneg_right (hrows _) hdensity.le)
    (hs.sampleStep_nonneg p n)

theorem coverage_lt_of_rows_lt (hn : 1 ≤ n) (hstep : 0 < s.sampleStep p n)
    (hrows : ∀ i < n, s.rowWith p Real.exp Real.sqrt (s.sampleHeight p n i)
      < s.rowWith q Real.exp Real.sqrt (s.sampleHeight p n i)) :
    s.coverage p (Scalar.ofNat n) < s.coverage q (Scalar.ofNat n) := by
  rw [coverage_eq_sum hblur, coverage_eq_sum hblur]
  refine Finset.sum_lt_sum_of_nonempty (Finset.nonempty_range_iff.mpr (by omega)) fun i hi => ?_
  rw [sampleHeight_of_same_height hy, sampleStep_of_same_height hy]
  have hdensity := gaussian_pos (s.sampleHeight p n i) (minBlurRadius_pos.trans_le hblur)
  exact mul_lt_mul_of_pos_right
    (mul_lt_mul_of_pos_right (hrows i (Finset.mem_range.mp hi)) hdensity) hstep

end

/-! ## Wide shadows -/

theorem blur_scale_pos {s : Shadow ℝ} (hblur : minBlurRadius ≤ s.blurRadius) :
    0 < √0.5 / s.blurRadius :=
  div_pos (Real.sqrt_pos.mpr (by norm_num)) (minBlurRadius_pos.trans_le hblur)

section
variable {s : Shadow ℝ} (hs : s.Proper) (hblur : minBlurRadius ≤ s.blurRadius)
include hs hblur

theorem Proper.falls_off_of_empty (hempty : s.bounds.IsEmpty) (n : ℕ) : s.FallsOff n :=
  fun p q _ _ => (coverage_nonpos hs.radii_nonneg hblur hempty q n).trans (hs.coverage_nonneg p n)

variable {radius : ℝ} (hradii : s.cornerRadii = ⟨radius, radius, radius, radius⟩)
  {steepest flat : ℝ} (h : ErfTurns steepest flat)
include hradii h

theorem Proper.falls_off_of_wide (n : ℕ)
    (hwide : flat ≤ 2 * ((s.bounds.size.width / 2 - radius) * (√0.5 / s.blurRadius))) :
    s.FallsOff n := by
  intro p q hy hx
  refine coverage_le_of_rows_le hy hblur n hs fun y => ?_
  rw [row_eq_blurBetween hradii, row_eq_blurBetween hradii]
  have hsame : (q.sub s.bounds.center).y = (p.sub s.bounds.center).y :=
    congrArg (· - s.bounds.center.y) hy.symm
  have hscale := blur_scale_pos hblur
  rw [hsame, ← blurBetween_abs, ← blurBetween_abs _ _ (p.sub s.bounds.center).x]
  refine blurBetween_antitoneOn hscale h (hwide.trans ?_)
    (Set.mem_Ici.mpr (abs_nonneg _)) (Set.mem_Ici.mpr (abs_nonneg _)) hx
  exact mul_le_mul_of_nonneg_left
    (mul_le_mul_of_nonneg_right (straight_le_rowHalfWidth _ _ _ _) hscale.le) two_pos.le

end

/-! ## The highest rows -/

section
variable {s : Shadow ℝ} {p : Point ℝ} {depth : ℝ} (hdepth : 0 < depth)
  (hheight : depth ≤ s.bounds.size.height / 2) (hreach : depth ≤ 2 * (blurExtent * s.blurRadius))
  (hp : (p.sub s.bounds.center).y
    = s.bounds.size.height / 2 + (blurExtent * s.blurRadius - depth))
include hdepth hheight hp

theorem windowStop_of_highest : s.windowStop p = blurExtent * s.blurRadius := by
  refine clampToShape_eq_self ?_ ?_ <;> rw [hp] <;> linarith

include hreach

theorem windowStart_of_highest : s.windowStart p = blurExtent * s.blurRadius - depth := by
  have hlow : -blurExtent * s.blurRadius ≤ s.bounds.size.height / 2
      + (blurExtent * s.blurRadius - depth) - s.bounds.size.height / 2 := by
    show -3 * s.blurRadius ≤ s.bounds.size.height / 2 + (3 * s.blurRadius - depth)
      - s.bounds.size.height / 2
    have hreach' : depth ≤ 2 * (3 * s.blurRadius) := hreach
    linarith
  rw [windowStart, clampToShape, hp, max_eq_right hlow, min_eq_left (by linarith)]
  ring

theorem sampleStep_of_highest (n : ℕ) : s.sampleStep p n = depth / n := by
  rw [sampleStep, windowStop_of_highest hdepth hheight hp,
    windowStart_of_highest hdepth hheight hreach hp, sub_sub_cancel]

/-- Almost out of reach above the shape, only the highest rows are sampled. -/
theorem row_of_highest {n i : ℕ} (hi : i < n) :
    s.bounds.size.height / 2 - depth < (p.sub s.bounds.center).y - s.sampleHeight p n i
      ∧ (p.sub s.bounds.center).y - s.sampleHeight p n i < s.bounds.size.height / 2 := by
  have hn : (0 : ℝ) < n := by exact_mod_cast Nat.zero_lt_of_lt hi
  have hlast : (i + 1 : ℝ) ≤ n := by exact_mod_cast hi
  have hwhole : n * (depth / n) = depth := mul_div_cancel₀ depth hn.ne'
  have hpos : 0 < (i + 1 / 2) * (depth / n) := by positivity
  have hlt : (i + 1 / 2) * (depth / n) < n * (depth / n) := by
    gcongr
    linarith
  rw [hp, sampleHeight, windowStart_of_highest hdepth hheight hreach hp,
    sampleStep_of_highest hdepth hheight hreach hp]
  constructor <;> linarith

end

/-! ## Narrow shadows -/

/-- A part of the shape so flat that its rounded rows are hardly wider than the straight part. -/
theorem exists_depth {height reach radius more : ℝ} (hheight : 0 < height) (hreach : 0 < reach)
    (hradius : 0 ≤ radius) (hmore : 0 < more) :
    ∃ depth, 0 < depth ∧ depth ≤ height ∧ depth ≤ reach ∧ 2 * radius * depth ≤ more ^ 2 := by
  have hroom : 0 < more ^ 2 / (2 * radius + 1) := by positivity
  refine ⟨min height (min reach (more ^ 2 / (2 * radius + 1))),
    lt_min hheight (lt_min hreach hroom), min_le_left _ _,
    (min_le_right _ _).trans (min_le_left _ _), ?_⟩
  calc 2 * radius * min height (min reach (more ^ 2 / (2 * radius + 1)))
      ≤ (2 * radius + 1) * (more ^ 2 / (2 * radius + 1)) := by
        gcongr
        · linarith
        · exact (min_le_right _ _).trans (min_le_right _ _)
    _ = more ^ 2 := mul_div_cancel₀ _ (by positivity)

section
variable {s : Shadow ℝ} (hs : s.Proper) {radius : ℝ}
  (hradii : s.cornerRadii = ⟨radius, radius, radius, radius⟩)
include hs hradii

theorem Proper.radius_nonneg : 0 ≤ radius := by
  have hnonneg := hs.radii_nonneg.topLeft
  rwa [hradii] at hnonneg

theorem Proper.radius_fits : radius ≤ s.bounds.size.width / 2 := by
  have hroom := hs.radius_le_halfWidth s.bounds.center
  rwa [Corners.radiusAt_of_eq hradii] at hroom

/-- Almost out of reach above a narrow shape, of two points at the same height the further one may
be covered more. -/
theorem Proper.not_falls_off_of_narrow (hblur : minBlurRadius ≤ s.blurRadius) {steepest flat : ℝ}
    (h : ErfTurns steepest flat) (hfull : ¬ s.bounds.IsEmpty) {n : ℕ} (hn : 1 ≤ n)
    (hnarrow : 2 * ((s.bounds.size.width / 2 - radius) * (√0.5 / s.blurRadius)) < flat) :
    ¬ s.FallsOff n := by
  obtain ⟨hwidth, hheight⟩ := not_or.mp hfull
  have hfit := hs.radius_fits hradii
  have hextent : 0 < 2 * (blurExtent * s.blurRadius) := by
    show 0 < 2 * (3 * s.blurRadius)
    linarith [minBlurRadius_pos.trans_le hblur]
  obtain ⟨more, hmore, hrows⟩ :=
    exists_blurBetween_lt h (blur_scale_pos hblur) (sub_nonneg.mpr hfit) hnarrow
  obtain ⟨depth, hdepth, hshallow, hreach, hflat⟩ :=
    exists_depth (half_pos (not_le.mp hheight)) hextent (hs.radius_nonneg hradii) hmore
  set across := s.bounds.size.width / 2 - radius with hacross
  set up := s.bounds.size.height / 2 + (blurExtent * s.blurRadius - depth) with hup
  let near : Point ℝ := ⟨s.bounds.center.x + across, s.bounds.center.y + up⟩
  let far : Point ℝ := ⟨s.bounds.center.x + (across + more), s.bounds.center.y + up⟩
  have hnear : near.sub s.bounds.center = ⟨across, up⟩ :=
    congrArg₂ Point.mk (add_sub_cancel_left _ _) (add_sub_cancel_left _ _)
  have hfar : far.sub s.bounds.center = ⟨across + more, up⟩ :=
    congrArg₂ Point.mk (add_sub_cancel_left _ _) (add_sub_cancel_left _ _)
  have hy : (near.sub s.bounds.center).y = up := by rw [hnear]
  intro hfalls
  refine (hfalls near far rfl ?_).not_gt
    (coverage_lt_of_rows_lt (p := near) (q := far) rfl hblur n hn ?_ fun i hi => ?_)
  · show |(near.sub s.bounds.center).x| ≤ |(far.sub s.bounds.center).x|
    rw [hnear, hfar, abs_of_nonneg (sub_nonneg.mpr hfit), abs_of_nonneg (by linarith)]
    linarith
  · rw [sampleStep_of_highest hdepth hshallow hreach hy]
    exact div_pos hdepth (by exact_mod_cast hn)
  · obtain ⟨hlow, hhigh⟩ := row_of_highest hdepth hshallow hreach hy hi
    rw [row_eq_blurBetween hradii, row_eq_blurBetween hradii, hfar]
    rw [hnear] at hlow hhigh ⊢
    have habs : |up - s.sampleHeight near n i| = up - s.sampleHeight near n i :=
      abs_of_nonneg (by linarith)
    refine hrows _ ?_ (straight_le_rowHalfWidth _ _ _ _) ?_
    · refine rowHalfWidth_pos hfit (by linarith [not_le.mp hwidth]) ?_
      rwa [habs]
    · refine rowHalfWidth_le_of_near_top (hs.radius_nonneg hradii) hdepth.le hmore.le hflat ?_
      rw [habs]
      exact hlow.le

end

/-! ## The exact bound -/

/-- The width, in blur radii, that a straight part needs for a shadow to fall off. -/
noncomputable def leastWidth : ℝ := erfFlat / √0.5

theorem leastWidth_mem : leastWidth ∈ Set.Ioo (0.186 : ℝ) 0.187 := by
  obtain ⟨steepest, h⟩ := exists_steepest_erfTurns
  have hroot : (0 : ℝ) < √0.5 := Real.sqrt_pos.mpr (by norm_num)
  have hlow : (0.7071 : ℝ) < √0.5 := (Real.lt_sqrt (by norm_num)).mpr (by norm_num)
  have hhigh : √0.5 < (0.7072 : ℝ) := (Real.sqrt_lt' (by norm_num)).mpr (by norm_num)
  rw [leastWidth, Set.mem_Ioo, lt_div_iff₀ hroot, div_lt_iff₀ hroot]
  constructor <;> linarith [h.le_flat, h.flat_le]

theorem erfFlat_le_iff {s : Shadow ℝ} (hsigma : 0 < s.blurRadius) (radius : ℝ) :
    erfFlat ≤ 2 * ((s.bounds.size.width / 2 - radius) * (√0.5 / s.blurRadius))
      ↔ leastWidth * s.blurRadius ≤ s.bounds.size.width - 2 * radius := by
  have hroot : (0 : ℝ) < √0.5 := Real.sqrt_pos.mpr (by norm_num)
  have hscaled : 2 * ((s.bounds.size.width / 2 - radius) * (√0.5 / s.blurRadius))
      = (s.bounds.size.width - 2 * radius) * √0.5 / s.blurRadius := by ring
  rw [hscaled, le_div_iff₀ hsigma, leastWidth, div_mul_eq_mul_div, div_le_iff₀ hroot]

/-- A shadow whose corners have one radius falls off if and only if it is empty or the straight part
of its top side is not shorter than a certain part, about 0.1865, of the blur radius. The number of
samples does not matter. -/
theorem falls_off_iff {s : Shadow ℝ} (hs : s.Proper) {radius : ℝ}
    (hradii : s.cornerRadii = ⟨radius, radius, radius, radius⟩)
    (hblur : minBlurRadius ≤ s.blurRadius) {n : ℕ} (hn : 1 ≤ n) :
    leastWidth ∈ Set.Ioo (0.186 : ℝ) 0.187
      ∧ (s.FallsOff n
        ↔ s.bounds.IsEmpty ∨ leastWidth * s.blurRadius ≤ s.bounds.size.width - 2 * radius) := by
  obtain ⟨steepest, h⟩ := exists_steepest_erfTurns
  refine ⟨leastWidth_mem, ?_⟩
  rw [← erfFlat_le_iff (minBlurRadius_pos.trans_le hblur)]
  constructor
  · intro hfalls
    by_contra hnarrow
    obtain ⟨hfull, hshort⟩ := not_or.mp hnarrow
    exact hs.not_falls_off_of_narrow hradii hblur h hfull hn (not_le.mp hshort) hfalls
  · rintro (hempty | hlong)
    · exact hs.falls_off_of_empty hblur hempty n
    · exact hs.falls_off_of_wide hblur hradii h n hlong

/-- A shape two wide under a blur of radius 50. -/
noncomputable def sliver : Shadow ℝ :=
  ⟨⟨0, .of 0 0 100 100, .of 49 30 2 40⟩, ⟨0, 0, 0, 0⟩, 50, ⟨0, 0, 0, 1⟩⟩

theorem sliver_proper : sliver.Proper where
  width_nonneg := by norm_num [sliver, Bounds.of]
  height_nonneg := by norm_num [sliver, Bounds.of]
  radii_nonneg := ⟨le_rfl, le_rfl, le_rfl, le_rfl⟩
  radii_fit := by constructor <;> norm_num [sliver, Bounds.of]
  blur_nonneg := by norm_num [sliver]

theorem minBlurRadius_le_sliver : minBlurRadius ≤ sliver.blurRadius := by
  show (1e-4 : ℝ) ≤ 50
  norm_num

/-- The square under a blur of a tenth of its side falls off, the sliver does not. -/
theorem falls_off_iff_square_and_sliver :
    (tenthBlur.Proper ∧ minBlurRadius ≤ tenthBlur.blurRadius ∧ tenthBlur.FallsOff 4)
      ∧ sliver.Proper ∧ minBlurRadius ≤ sliver.blurRadius ∧ ¬ sliver.FallsOff 4 := by
  have hblur := minBlurRadius_le_tenthBlur
  obtain ⟨hleast, hsquare⟩ := falls_off_iff tenthBlur_proper rfl hblur (n := 4) (by decide)
  obtain ⟨-, hsliver⟩ :=
    falls_off_iff sliver_proper rfl minBlurRadius_le_sliver (n := 4) (by decide)
  refine ⟨⟨tenthBlur_proper, hblur, ?_⟩, sliver_proper, minBlurRadius_le_sliver, ?_⟩
  · refine hsquare.mpr (.inr ?_)
    norm_num [tenthBlur, Bounds.of]
    linarith [hleast.2]
  · rw [hsliver]
    norm_num [sliver, Bounds.of, Bounds.IsEmpty]
    linarith [hleast.1]

theorem sliver_sides :
    sliver.bounds.size.width / 2 = 1 ∧ sliver.bounds.size.height / 2 = 20 := by
  norm_num [sliver, Bounds.of]

theorem sliver_fromCenter (x : ℝ) :
    (⟨x, 50⟩ : Point ℝ).sub sliver.bounds.center = ⟨x - 50, 0⟩ := by
  norm_num [sliver, Bounds.center, Bounds.of, Point.sub]

theorem sliver_sampleStep : sliver.sampleStep ⟨50, 50⟩ 4 = 10 := by
  have hstart : sliver.windowStart ⟨50, 50⟩ = -20 := by
    rw [windowStart, clampToShape, sliver_fromCenter, sliver_sides.2]
    show min (max (-3 * 50) (0 - 20)) ((0 : ℝ) + 20) = -20
    norm_num
  have hstop : sliver.windowStop ⟨50, 50⟩ = 20 := by
    rw [windowStop, clampToShape, sliver_fromCenter, sliver_sides.2]
    show min (max (3 * 50) (0 - 20)) ((0 : ℝ) + 20) = 20
    norm_num
  rw [sampleStep, hstart, hstop]
  norm_num

/-- Both ends of the sliver are on the part where the slope grows. -/
theorem sliver_row_lt : blurBetween 1 (√0.5 / sliver.blurRadius) 0
    < blurBetween 1 (√0.5 / sliver.blurRadius) 1 := by
  obtain ⟨steepest, h⟩ := exists_steepest_erfTurns
  have hscale := blur_scale_pos minBlurRadius_le_sliver
  have hsmall : 2 * (√0.5 / sliver.blurRadius) ≤ steepest := by
    have hroot : √0.5 ≤ 1 := Real.sqrt_le_one.mpr (by norm_num)
    have hsigma : sliver.blurRadius = 50 := rfl
    rw [hsigma]
    linarith [h.le_steepest]
  refine blurBetween_lt hscale zero_lt_one fun x hx hx' => ?_
  rw [abs_mul, abs_mul, abs_of_pos hscale, abs_of_neg (by linarith), abs_of_pos (by linarith)]
  refine h.rises ⟨?_, ?_⟩ ⟨?_, ?_⟩ ?_ <;> nlinarith

/-- At the vertical centre line of the sliver the coverage is less than beside it. -/
theorem sliver_darker_beside_center : sliver.Proper ∧ minBlurRadius ≤ sliver.blurRadius
    ∧ sliver.coverage ⟨50, 50⟩ (Scalar.ofNat 4) < sliver.coverage ⟨51, 50⟩ (Scalar.ofNat 4) := by
  have hradii : sliver.cornerRadii = ⟨0, 0, 0, 0⟩ := rfl
  refine ⟨sliver_proper, minBlurRadius_le_sliver, coverage_lt_of_rows_lt (p := ⟨50, 50⟩)
    (q := ⟨51, 50⟩) rfl minBlurRadius_le_sliver 4 (by decide) ?_ fun i _ => ?_⟩
  · rw [sliver_sampleStep]
    norm_num
  · have hone : (51 : ℝ) - 50 = 1 := by norm_num
    rw [row_eq_blurBetween hradii, row_eq_blurBetween hradii, rowHalfWidth_of_radius_zero,
      rowHalfWidth_of_radius_zero, sliver_fromCenter, sliver_fromCenter, sliver_sides.1, sub_self,
      hone]
    exact sliver_row_lt

end Shadow

end Raster
