import Raster.Proofs.OuterRamp

/-!
# Coverage falls off outward

Going from the centre of a quad outward, along both axes and without leaving
the quadrant, an opaque quad is covered less and less
(`Quad.coverage_falls_outward`), whichever of the three ways of telling its
coverage applies: the half-open bounds of a plain quad, the interior, where
coverage is full, or the ramp along the outline.

A point farther out is seen from the same corner, only from a place that is
farther along both axes (`QuadCorner.Outward`). The outline is nearer there
(`QuadCorner.Outward.outer_le`), and the interior is closed toward the centre
(`QuadCorner.Outward.isInterior`), so nothing is gained by leaving it. Radii,
border widths and sides of any sign will do.
-/

namespace Raster

theorem saturate_mono : Monotone (saturate : ℝ → ℝ) := by
  intro x y hxy
  rcases le_or_gt x 0 with hx | hx
  · rw [saturate_of_nonpos hx]
    exact (saturate_mem y).1
  · rcases le_or_gt 1 y with hy | hy
    · rw [saturate_eq_one_iff.mpr hy]
      exact (saturate_mem x).2
    · rwa [saturate_eq_self hx.le (hxy.trans hy.le), saturate_eq_self (hx.le.trans hxy) hy.le]

/-- The distance to a rounded corner grows along both axes. -/
theorem cornerDistance_mono {p p' : Point ℝ} (hx : p.x ≤ p'.x) (hy : p.y ≤ p'.y) (radius : ℝ) :
    cornerDistance p radius ≤ cornerDistance p' radius := by
  have hnearer : max p.x p.y ≤ max p'.x p'.y := max_le_max hx hy
  unfold cornerDistance
  split
  next => exact hnearer
  next =>
    have hlegX : max 0 p.x ≤ max 0 p'.x := max_le_max_left 0 hx
    have hlegY : max 0 p.y ≤ max 0 p'.y := max_le_max_left 0 hy
    have houtside : Scalar.hypot (max 0 p.x) (max 0 p.y)
        ≤ Scalar.hypot (max 0 p'.x) (max 0 p'.y) := by
      refine Real.sqrt_le_sqrt (add_le_add ?_ ?_)
      · exact mul_self_le_mul_self (le_max_left ..) hlegX
      · exact mul_self_le_mul_self (le_max_left ..) hlegY
    exact sub_le_sub_right (add_le_add houtside (min_le_min_left 0 hnearer)) radius

/-! ## Farther from a corner's centre -/

/-- A point in the quadrant of another, at least as far from the centre along both axes. -/
structure Bounds.Outward (b : Bounds ℝ) (p p' : Point ℝ) : Prop where
  left_iff : (p.sub b.center).x < 0 ↔ (p'.sub b.center).x < 0
  above_iff : (p.sub b.center).y < 0 ↔ (p'.sub b.center).y < 0
  abs_x_le : |(p.sub b.center).x| ≤ |(p'.sub b.center).x|
  abs_y_le : |(p.sub b.center).y| ≤ |(p'.sub b.center).y|

/-- The same corner, seen from farther out. -/
structure QuadCorner.Outward (c c' : QuadCorner ℝ) : Prop where
  radius_eq : c'.radius = c.radius
  border_eq : c'.border = c.border
  fromCorner_x_le : c.fromCorner.x ≤ c'.fromCorner.x
  fromCorner_y_le : c.fromCorner.y ≤ c'.fromCorner.y

theorem Bounds.Outward.radiusAt_eq {b : Bounds ℝ} {p p' : Point ℝ} (h : b.Outward p p')
    (radii : Corners ℝ) : radii.radiusAt (p'.sub b.center) = radii.radiusAt (p.sub b.center) := by
  unfold Corners.radiusAt
  simp only [h.left_iff, h.above_iff]

/-- The half-open bounds are closed toward the centre, within a quadrant. -/
theorem Bounds.Outward.contains {b : Bounds ℝ} {p p' : Point ℝ} (h : b.Outward p p')
    (hcontains : b.contains p' = true) : b.contains p = true := by
  have hside {start extent v v' : ℝ}
      (hsign : v - (start + extent / 2) < 0 ↔ v' - (start + extent / 2) < 0)
      (habs : |v - (start + extent / 2)| ≤ |v' - (start + extent / 2)|)
      (hmem : start ≤ v' ∧ v' < start + extent) : start ≤ v ∧ v < start + extent := by
    rcases lt_or_ge (v - (start + extent / 2)) 0 with hleft | hright
    · rw [abs_of_neg hleft, abs_of_neg (hsign.mp hleft)] at habs
      constructor <;> linarith [hmem.1, hmem.2]
    · have hright' := not_lt.mp (mt hsign.mpr hright.not_gt)
      rw [abs_of_nonneg hright, abs_of_nonneg hright'] at habs
      constructor <;> linarith [hmem.1, hmem.2]
  obtain ⟨hx, hy⟩ := Bounds.contains_iff.mp hcontains
  exact Bounds.contains_iff.mpr
    ⟨hside h.left_iff h.abs_x_le hx, hside h.above_iff h.abs_y_le hy⟩

theorem Bounds.Outward.corner {q : Quad ℝ} {p p' : Point ℝ} (h : q.bounds.Outward p p') :
    (q.corner p).Outward (q.corner p') where
  radius_eq := h.radiusAt_eq q.cornerRadii
  border_eq := by
    unfold Quad.corner
    simp only [h.left_iff, h.above_iff]
  fromCorner_x_le := sub_le_sub_right h.abs_x_le _
  fromCorner_y_le := sub_le_sub_right h.abs_y_le _

namespace QuadCorner.Outward

variable {c c' : QuadCorner ℝ} (h : c.Outward c')
include h

theorem fromCircle_le : c.fromCircle.x ≤ c'.fromCircle.x ∧ c.fromCircle.y ≤ c'.fromCircle.y := by
  unfold fromCircle
  rw [h.radius_eq]
  exact ⟨add_le_add_left h.fromCorner_x_le _, add_le_add_left h.fromCorner_y_le _⟩

theorem fromInner_le : c.fromInner.x ≤ c'.fromInner.x ∧ c.fromInner.y ≤ c'.fromInner.y := by
  unfold fromInner
  rw [h.border_eq]
  exact ⟨add_le_add_left h.fromCorner_x_le _, add_le_add_left h.fromCorner_y_le _⟩

theorem outer_le : c.outer ≤ c'.outer := by
  unfold outer
  rw [h.radius_eq]
  exact cornerDistance_mono h.fromCircle_le.1 h.fromCircle_le.2 c.radius

/-- The interior is closed toward the centre. -/
theorem isInterior (hinterior : c'.isInterior = true) : c.isInterior = true := by
  obtain ⟨⟨hx, hy⟩, hside⟩ := isInterior_iff.mp hinterior
  obtain ⟨hinnerX, hinnerY⟩ := h.fromInner_le
  obtain ⟨hcircleX, hcircleY⟩ := h.fromCircle_le
  exact isInterior_iff.mpr
    ⟨⟨hinnerX.trans_lt hx, hinnerY.trans_lt hy⟩, hside.imp hcircleX.trans_lt hcircleY.trans_lt⟩

end QuadCorner.Outward

/-! ## Opaque quads -/

namespace Quad

variable {q : Quad ℝ}

/-- How much of a point an opaque quad covers. -/
noncomputable def coverageAt (q : Quad ℝ) (p : Point ℝ) : ℝ :=
  if q.isPlain then if q.bounds.contains p then 1 else 0
  else if (q.corner p).isInterior then 1 else saturate (rampHalf - (q.corner p).outer)

theorem coverageAt_mem (q : Quad ℝ) (p : Point ℝ) : q.coverageAt p ∈ Set.Icc (0 : ℝ) 1 := by
  unfold coverageAt
  split_ifs
  · exact unitInterval.one_mem
  · exact unitInterval.zero_mem
  · exact unitInterval.one_mem
  · exact saturate_mem _

/-- Inside the mask, the alpha of an opaque quad is its coverage. -/
theorem alpha_shade_of_full {p : Point ℝ} (hmask : q.contentMask.clips p = false)
    (hfill : (q.fill.prepare.colorAt p q.bounds).a = 1) (ctx : FrameContext ℝ) :
    (q.shade p ctx).a = q.coverageAt p := by
  have hfull : ((q.fill.prepare.colorAt p q.bounds).fade 1 ctx.premultipliedAlpha).a = 1 := by
    show (q.fill.prepare.colorAt p q.bounds).a * 1 = 1
    rw [hfill, mul_one]
  have hclear : (Rgba.transparent : Rgba ℝ).a = 0 := rfl
  have hramp : ((q.corner p).colorByDistance (q.fill.prepare.colorAt p q.bounds)
      q.borderColor.toLinear ctx.premultipliedAlpha).a
        = saturate (rampHalf - (q.corner p).outer) := by
    show ((q.corner p).mixBorder _ _).a * _ = _
    rw [QuadCorner.alpha_mixBorder_of_full _ hfill, one_mul]
  unfold shade evaluate project coverageAt
  dsimp only
  rw [hmask, if_neg Bool.false_ne_true]
  split_ifs
  · exact hfull
  · exact hclear
  · exact hfull
  · exact hramp

theorem coverageAt_le_of_outward {p p' : Point ℝ} (h : q.bounds.Outward p p') :
    q.coverageAt p' ≤ q.coverageAt p := by
  by_cases hplain : q.isPlain = true
  · by_cases hnear : q.bounds.contains p = true
    · have hfull : q.coverageAt p = 1 := by rw [coverageAt, if_pos hplain, if_pos hnear]
      rw [hfull]
      exact (q.coverageAt_mem p').2
    · have hempty : q.coverageAt p' = 0 := by
        rw [coverageAt, if_pos hplain, if_neg fun hfar => hnear (h.contains hfar)]
      rw [hempty]
      exact (q.coverageAt_mem p).1
  · by_cases hnear : (q.corner p).isInterior = true
    · have hfull : q.coverageAt p = 1 := by rw [coverageAt, if_neg hplain, if_pos hnear]
      rw [hfull]
      exact (q.coverageAt_mem p').2
    · -- then the farther point is not in the interior either, and both are on the ramp
      rw [coverageAt, coverageAt, if_neg hplain, if_neg hplain, if_neg hnear,
        if_neg fun hfar => hnear (h.corner.isInterior hfar)]
      exact saturate_mono (sub_le_sub_left h.corner.outer_le rampHalf)

/-- The alpha of an opaque quad is between 0 and 1, and does not increase from the centre outward
within a quadrant, whatever its border. -/
theorem coverage_falls_outward {color : Hsla ℝ} (hfill : q.fill = .solid color)
    (hfull : color.a = 1) {p p' : Point ℝ} (houtward : q.bounds.Outward p p')
    (hmask : q.contentMask.clips p = false) (hmask' : q.contentMask.clips p' = false)
    (ctx : FrameContext ℝ) :
    0 ≤ (q.shade p' ctx).a ∧ (q.shade p' ctx).a ≤ (q.shade p ctx).a
      ∧ (q.shade p ctx).a ≤ 1 := by
  have hcolor (v : Point ℝ) : (q.fill.prepare.colorAt v q.bounds).a = 1 := by
    rw [hfill]
    exact (Hsla.alpha_toLinear color).trans hfull
  rw [alpha_shade_of_full hmask (hcolor p), alpha_shade_of_full hmask' (hcolor p')]
  exact ⟨(q.coverageAt_mem p').1, coverageAt_le_of_outward houtward, (q.coverageAt_mem p).2⟩

/-- From the interior of a rounded square, out of its straight part, into the ramp of a corner. -/
theorem coverage_falls_outward_into_corner :
    let q : Quad ℝ := roundedSquare
    let p : Point ℝ := ⟨50, 1 / 4⟩
    let p' : Point ℝ := ⟨92, 1 / 4⟩
    let ctx : FrameContext ℝ := ⟨⟨100, 100⟩, false, 4, false, none⟩
    q.fill = .solid ⟨0, 1, 0.5, 1⟩ ∧ q.bounds.Outward p p' ∧ q.contentMask.clips p = false
      ∧ q.contentMask.clips p' = false ∧ (q.corner p).isInterior = true
      ∧ (q.shade p' ctx).a ≤ (q.shade p ctx).a := by
  intro q p p' ctx
  have hcenter : q.bounds.center = ⟨50, 50⟩ := by
    norm_num [q, roundedSquare, Bounds.of, Bounds.center]
  have houtward : q.bounds.Outward p p' := by
    constructor <;> norm_num [hcenter, p, p', Point.sub]
  have hmask (x : ℝ) (hx : 0 ≤ x) (hx' : x ≤ 100) :
      q.contentMask.clips ⟨x, 1 / 4⟩ = false := by
    rw [Bool.eq_false_iff, ne_eq, Bounds.clips_iff]
    norm_num [q, roundedSquare, Bounds.of, hx, hx']
  have hinterior : (q.corner p).isInterior = true :=
    isInterior_roundedSquare (by norm_num) (by norm_num)
  have hnear := hmask 50 (by norm_num) (by norm_num)
  have hfar := hmask 92 (by norm_num) (by norm_num)
  exact ⟨rfl, houtward, hnear, hfar, hinterior,
    (coverage_falls_outward rfl rfl houtward hnear hfar ctx).2.1⟩

end Quad

end Raster
