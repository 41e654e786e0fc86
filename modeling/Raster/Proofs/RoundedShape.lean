import Mathlib.Topology.Order.OrderClosed
import Raster.Proofs.MissingBorder
import Raster.Proofs.ShadowCoverage

/-!
# The shape behind the distance

The signed distance to a rounded rectangle tells inside, boundary and outside
of the shape that it is named after (`Bounds.roundedDistance_sign`). The shape
is a set of points, told without distances (`Bounds.rounded`): the closed
rectangle, cut off in each corner at a quarter circle.

Up to zero the distance is that of a point of the shape
(`Bounds.mem_rounded_iff`), quadrant by quadrant. That its sign tells inside and
boundary as well rests on two facts. The distance is continuous also where two
quadrants with different radii meet (`Bounds.continuous_roundedDistance`): as
no radius is above half of the shorter side, on a centre line only a straight
side is near. And it grows on the way out of the corner of a quadrant
(`Bounds.roundedDistance_lt_outward`), so where it is zero there are points
of the outside as near as one likes.
-/

namespace Raster

/-! ## A corner -/

/-- Whether a corner of radius `r` leaves a point at distances `dx` and `dy` inside its two sides:
in the `r` by `r` square of the corner, the points within `r` of the inner corner of the square. -/
def CornerLeaves (r dx dy : ℝ) : Prop := dx ≤ r → dy ≤ r → (r - dx) ^ 2 + (r - dy) ^ 2 ≤ r ^ 2

/-- The distance to a rounded corner is not positive on the inner side of both sides, where
the corner leaves the point. -/
theorem cornerDistance_nonpos_iff {r : ℝ} (hr : 0 ≤ r) (dx dy : ℝ) :
    cornerDistance ⟨r - dx, r - dy⟩ r ≤ 0 ↔ (0 ≤ dx ∧ 0 ≤ dy) ∧ CornerLeaves r dx dy := by
  have hsides (h : cornerDistance ⟨r - dx, r - dy⟩ r ≤ 0) : 0 ≤ dx ∧ 0 ≤ dy := by
    have hnearer := (max_sub_le_cornerDistance ⟨r - dx, r - dy⟩ r).trans h
    rwa [sub_nonpos, max_le_iff, sub_le_self_iff, sub_le_self_iff] at hnearer
  by_cases hside : r - dx ≤ 0 ∨ r - dy ≤ 0
  · constructor
    · intro h
      obtain ⟨hdx, hdy⟩ := hsides h
      refine ⟨⟨hdx, hdy⟩, fun hleft htop => ?_⟩
      -- the point is on the border of the square, so one of the two legs is zero
      rcases hside with h | h
      · obtain rfl : dx = r := le_antisymm hleft (sub_nonpos.mp h)
        nlinarith
      · obtain rfl : dy = r := le_antisymm htop (sub_nonpos.mp h)
        nlinarith
    · rintro ⟨⟨hdx, hdy⟩, -⟩
      rw [cornerDistance_of_side hside, sub_nonpos]
      exact max_le (sub_le_self r hdx) (sub_le_self r hdy)
  · obtain ⟨hx, hy⟩ := not_or.mp hside
    have hx : 0 < r - dx := not_le.mp hx
    have hy : 0 < r - dy := not_le.mp hy
    rcases hr.eq_or_lt with rfl | hpos
    · -- a square corner has no square, and the point is outside both sides
      constructor
      · intro h
        linarith [(hsides h).1]
      · rintro ⟨⟨hdx, -⟩, -⟩
        linarith
    · have hsquare : cornerDistance ⟨r - dx, r - dy⟩ r ≤ 0
          ↔ (r - dx) ^ 2 + (r - dy) ^ 2 ≤ r ^ 2 := by
        rw [cornerDistance_of_round hx hy hpos.ne', sub_nonpos, Real.sqrt_le_left hr]
        simp only [sq]
      constructor
      · intro h
        exact ⟨hsides h, fun _ _ => hsquare.mp h⟩
      · rintro ⟨-, hleaves⟩
        exact hsquare.mpr (hleaves (by linarith) (by linarith))

/-- On the way out along both axes, the distance to a corner grows. -/
theorem cornerDistance_lt_add (p : Point ℝ) (radius : ℝ) {t : ℝ} (ht : 0 < t) :
    cornerDistance p radius < cornerDistance ⟨p.x + t, p.y + t⟩ radius := by
  have hnearer : max p.x p.y - radius < cornerDistance ⟨p.x + t, p.y + t⟩ radius := by
    refine lt_of_lt_of_le ?_ (max_sub_le_cornerDistance ⟨p.x + t, p.y + t⟩ radius)
    have hmax : max (p.x + t) (p.y + t) = max p.x p.y + t := max_add_add_right ..
    dsimp only
    rw [hmax]
    linarith
  by_cases hside : p.x ≤ 0 ∨ p.y ≤ 0
  · rwa [cornerDistance_of_side hside]
  · obtain ⟨hx, hy⟩ := not_or.mp hside
    have hx : 0 < p.x := not_le.mp hx
    have hy : 0 < p.y := not_le.mp hy
    rcases eq_or_ne radius 0 with rfl | hradius
    · rwa [cornerDistance_of_square p, ← sub_zero (max p.x p.y)]
    · rw [cornerDistance_of_round hx hy hradius,
        cornerDistance_of_round (add_pos hx ht) (add_pos hy ht) hradius]
      refine sub_lt_sub_right (Real.sqrt_lt_sqrt (by positivity) ?_) radius
      dsimp only
      nlinarith

theorem continuous_cornerDistance (radius : ℝ) :
    Continuous fun v : ℝ × ℝ => cornerDistance ⟨v.1, v.2⟩ radius := by
  by_cases hradius : radius = 0
  · have hsquare : (fun v : ℝ × ℝ => cornerDistance ⟨v.1, v.2⟩ radius) = fun v => max v.1 v.2 :=
      funext fun v => if_pos (Scalar.beq_iff_eq.mpr hradius)
    rw [hsquare]
    fun_prop
  · have hround : (fun v : ℝ × ℝ => cornerDistance ⟨v.1, v.2⟩ radius)
        = fun v => Real.sqrt (max 0 v.1 * max 0 v.1 + max 0 v.2 * max 0 v.2)
          + min 0 (max v.1 v.2) - radius :=
      funext fun v => if_neg fun h => hradius (Scalar.beq_iff_eq.mp h)
    rw [hround]
    fun_prop

/-! ## Quadrants -/

/-- Two continuous functions side by side, where they agree on the line between them. -/
theorem continuous_ite_neg {side low high : ℝ × ℝ → ℝ} (hside : Continuous side)
    (hlow : Continuous low) (hhigh : Continuous high) (hseam : ∀ v, side v = 0 → low v = high v) :
    Continuous fun v => if side v < 0 then low v else high v := by
  have hswap : (fun v => if side v < 0 then low v else high v)
      = fun v => if 0 ≤ side v then high v else low v := by
    funext v
    simp only [← not_lt, ite_not]
  rw [hswap]
  exact hhigh.if_le hlow continuous_const hside fun v hv => (hseam v hv.symm).symm

namespace Bounds

/-- A rectangle with rounded corners, sides and circles included. A quadrant has the corner, and
the radius, that its side of the two centre lines tells; the centre lines belong to the right and to
the bottom. -/
def rounded (b : Bounds ℝ) (radii : Corners ℝ) : Set (ℝ × ℝ) :=
  {v |
    let left := v.1 - b.origin.x
    let right := b.origin.x + b.size.width - v.1
    let top := v.2 - b.origin.y
    let bottom := b.origin.y + b.size.height - v.2
    ((0 ≤ left ∧ 0 ≤ right) ∧ 0 ≤ top ∧ 0 ≤ bottom) ∧
      if v.1 < b.origin.x + b.size.width / 2 then
        if v.2 < b.origin.y + b.size.height / 2 then CornerLeaves radii.topLeft left top
        else CornerLeaves radii.bottomLeft left bottom
      else
        if v.2 < b.origin.y + b.size.height / 2 then CornerLeaves radii.topRight right top
        else CornerLeaves radii.bottomRight right bottom}

/-- How far a coordinate is inside the nearer end of an interval. -/
noncomputable def depth (start extent v : ℝ) : ℝ :=
  if v < start + extent / 2 then v - start else start + extent - v

theorem abs_sub_center (start extent v : ℝ) :
    |v - (start + extent / 2)| - extent / 2 = -depth start extent v := by
  unfold depth
  split_ifs with h
  · rw [abs_of_neg (sub_neg.mpr h)]
    ring
  · rw [abs_of_nonneg (sub_nonneg.mpr (not_lt.mp h))]
    ring

theorem depth_nonneg_iff {extent : ℝ} (hextent : 0 ≤ extent) (start v : ℝ) :
    0 ≤ depth start extent v ↔ 0 ≤ v - start ∧ 0 ≤ start + extent - v := by
  unfold depth
  split_ifs with h
  · rw [iff_self_and]
    intro
    linarith
  · rw [iff_and_self]
    intro
    linarith [not_lt.mp h]

/-- The middle is as deep as a coordinate can be. -/
theorem depth_of_middle {start extent v : ℝ} (hv : v - (start + extent / 2) = 0) :
    depth start extent v = extent / 2 := by
  obtain rfl : v = start + extent / 2 := sub_eq_zero.mp hv
  rw [depth, if_neg (lt_irrefl _)]
  ring

/-- The way out of an interval, away from its middle. -/
theorem exists_depth_eq_sub (start extent v : ℝ) {t : ℝ} (ht : 0 ≤ t) :
    ∃ w, |w - v| = t ∧ (w < start + extent / 2 ↔ v < start + extent / 2)
      ∧ depth start extent w = depth start extent v - t := by
  rcases lt_or_ge v (start + extent / 2) with h | h
  · have hw : v - t < start + extent / 2 := by linarith
    refine ⟨v - t, ?_, iff_of_true hw h, ?_⟩
    · rw [sub_sub_cancel_left, abs_neg, abs_of_nonneg ht]
    · rw [depth, depth, if_pos hw, if_pos h]
      ring
  · have hw : start + extent / 2 ≤ v + t := by linarith
    refine ⟨v + t, ?_, iff_of_false hw.not_gt h.not_gt, ?_⟩
    · rw [add_sub_cancel_left, abs_of_nonneg ht]
    · rw [depth, depth, if_neg hw.not_gt, if_neg h.not_gt]
      ring

section
variable (b : Bounds ℝ) (radii : Corners ℝ) (v : ℝ × ℝ)

/-- The radius of a point's quadrant. -/
noncomputable def quadrantRadius : ℝ := radii.radiusAt (Point.sub ⟨v.1, v.2⟩ b.center)

noncomputable def depthX : ℝ := depth b.origin.x b.size.width v.1

noncomputable def depthY : ℝ := depth b.origin.y b.size.height v.2

/-- The distance to a corner of the rectangle, whatever the quadrant. -/
noncomputable def quadrantDistance (radius : ℝ) : ℝ :=
  cornerDistance ⟨radius - b.depthX v, radius - b.depthY v⟩ radius

theorem roundedDistance_eq :
    b.roundedDistance radii ⟨v.1, v.2⟩ = b.quadrantDistance v (b.quadrantRadius radii v) := by
  have hreach (start extent x : ℝ) (radius : ℝ) :
      |x - (start + extent / 2)| - extent / 2 + radius = radius - depth start extent x := by
    rw [abs_sub_center]
    ring
  exact congrArg₂ (fun x y => cornerDistance ⟨x, y⟩ _) (hreach ..) (hreach ..)

end

section
variable {b : Bounds ℝ} {radii : Corners ℝ}

/-- Deeper than its radius on one of the axes, a corner is two straight sides. -/
theorem quadrantDistance_of_deep {v : ℝ × ℝ} {radius : ℝ}
    (h : radius ≤ b.depthX v ∨ radius ≤ b.depthY v) :
    b.quadrantDistance v radius = -min (b.depthX v) (b.depthY v) := by
  rw [quadrantDistance, cornerDistance_of_side (h.imp sub_nonpos.mpr sub_nonpos.mpr),
    max_sub_sub_left, sub_sub_cancel_left]

/-- On the vertical centre line the radius of the quadrant does not matter. -/
theorem quadrantDistance_of_centerX {v : ℝ × ℝ} (hv : v.1 - b.center.x = 0) {r r' : ℝ}
    (hr : r ≤ b.size.width / 2) (hr' : r' ≤ b.size.width / 2) :
    b.quadrantDistance v r = b.quadrantDistance v r' := by
  have hdepth : b.depthX v = b.size.width / 2 := depth_of_middle hv
  rw [quadrantDistance_of_deep (.inl (hdepth ▸ hr)), quadrantDistance_of_deep (.inl (hdepth ▸ hr'))]

/-- On the horizontal centre line the radius of the quadrant does not matter. -/
theorem quadrantDistance_of_centerY {v : ℝ × ℝ} (hv : v.2 - b.center.y = 0) {r r' : ℝ}
    (hr : r ≤ b.size.height / 2) (hr' : r' ≤ b.size.height / 2) :
    b.quadrantDistance v r = b.quadrantDistance v r' := by
  have hdepth : b.depthY v = b.size.height / 2 := depth_of_middle hv
  rw [quadrantDistance_of_deep (.inr (hdepth ▸ hr)), quadrantDistance_of_deep (.inr (hdepth ▸ hr'))]

theorem continuous_quadrantDistance (b : Bounds ℝ) (radius : ℝ) :
    Continuous fun v => b.quadrantDistance v radius := by
  have hreach (start extent x : ℝ) :
      radius - depth start extent x = |x - (start + extent / 2)| - extent / 2 + radius := by
    rw [abs_sub_center]
    ring
  have hpoint : Continuous fun v : ℝ × ℝ => (radius - b.depthX v, radius - b.depthY v) := by
    simp only [depthX, depthY, hreach]
    fun_prop
  exact (continuous_cornerDistance radius).comp hpoint

/-- Where no radius is above half of the shorter side, the distance is continuous, also from
quadrant to quadrant. -/
theorem continuous_roundedDistance (hfit : radii.AtMost (min b.size.width b.size.height / 2)) :
    Continuous fun v : ℝ × ℝ => b.roundedDistance radii ⟨v.1, v.2⟩ := by
  have hquadrants : (fun v : ℝ × ℝ => b.roundedDistance radii ⟨v.1, v.2⟩) = fun v =>
      if v.1 - b.center.x < 0 then
        if v.2 - b.center.y < 0 then b.quadrantDistance v radii.topLeft
        else b.quadrantDistance v radii.bottomLeft
      else
        if v.2 - b.center.y < 0 then b.quadrantDistance v radii.topRight
        else b.quadrantDistance v radii.bottomRight := by
    funext v
    rw [roundedDistance_eq, quadrantRadius, Corners.radiusAt, apply_ite (b.quadrantDistance v),
      apply_ite (b.quadrantDistance v), apply_ite (b.quadrantDistance v)]
    rfl
  have hwidth {r : ℝ} (hr : r ≤ min b.size.width b.size.height / 2) : r ≤ b.size.width / 2 := by
    linarith [min_le_left b.size.width b.size.height]
  have hheight {r : ℝ} (hr : r ≤ min b.size.width b.size.height / 2) : r ≤ b.size.height / 2 := by
    linarith [min_le_right b.size.width b.size.height]
  have hx : Continuous fun v : ℝ × ℝ => v.1 - b.center.x := by fun_prop
  have hy : Continuous fun v : ℝ × ℝ => v.2 - b.center.y := by fun_prop
  rw [hquadrants]
  refine continuous_ite_neg hx
    (continuous_ite_neg hy (b.continuous_quadrantDistance _) (b.continuous_quadrantDistance _)
      fun v hv => quadrantDistance_of_centerY hv (hheight hfit.topLeft) (hheight hfit.bottomLeft))
    (continuous_ite_neg hy (b.continuous_quadrantDistance _) (b.continuous_quadrantDistance _)
      fun v hv => quadrantDistance_of_centerY hv (hheight hfit.topRight)
        (hheight hfit.bottomRight))
    fun v hv => ?_
  split_ifs
  · exact quadrantDistance_of_centerX hv (hwidth hfit.topLeft) (hwidth hfit.topRight)
  · exact quadrantDistance_of_centerX hv (hwidth hfit.bottomLeft) (hwidth hfit.bottomRight)

/-- On the way out of a quadrant along both axes, the distance grows. -/
theorem roundedDistance_lt_outward (b : Bounds ℝ) (radii : Corners ℝ) (v : ℝ × ℝ) {t : ℝ}
    (ht : 0 < t) : ∃ w : ℝ × ℝ, dist w v = t
      ∧ b.roundedDistance radii ⟨v.1, v.2⟩ < b.roundedDistance radii ⟨w.1, w.2⟩ := by
  obtain ⟨x, hdistX, hsideX, hdepthX⟩ := exists_depth_eq_sub b.origin.x b.size.width v.1 ht.le
  obtain ⟨y, hdistY, hsideY, hdepthY⟩ := exists_depth_eq_sub b.origin.y b.size.height v.2 ht.le
  have hradius : b.quadrantRadius radii (x, y) = b.quadrantRadius radii v := by
    simp only [quadrantRadius, Corners.radiusAt, Point.sub, center, sub_neg, hsideX, hsideY]
  refine ⟨(x, y), ?_, ?_⟩
  · rw [Prod.dist_eq, Real.dist_eq, Real.dist_eq, hdistX, hdistY, max_self]
  · have hx : b.depthX (x, y) = b.depthX v - t := hdepthX
    have hy : b.depthY (x, y) = b.depthY v - t := hdepthY
    rw [roundedDistance_eq, roundedDistance_eq _ _ (x, y), hradius, quadrantDistance,
      quadrantDistance, hx, hy, ← sub_add, ← sub_add]
    exact cornerDistance_lt_add ⟨b.quadrantRadius radii v - b.depthX v,
      b.quadrantRadius radii v - b.depthY v⟩ _ ht

/-! ## Inside, boundary and outside -/

variable (hwidth : 0 ≤ b.size.width) (hheight : 0 ≤ b.size.height) (hnonneg : radii.Nonneg)
include hwidth hheight hnonneg

/-- The points of the shape are those whose distance is not positive. -/
theorem mem_rounded_iff (v : ℝ × ℝ) :
    v ∈ b.rounded radii ↔ b.roundedDistance radii ⟨v.1, v.2⟩ ≤ 0 := by
  have hradius : 0 ≤ b.quadrantRadius radii v := hnonneg.radiusAt _
  rw [roundedDistance_eq, quadrantDistance, cornerDistance_nonpos_iff hradius, depthX, depthY,
    depth_nonneg_iff hwidth, depth_nonneg_iff hheight]
  refine and_congr_right' ?_
  simp only [quadrantRadius, Corners.radiusAt, depth, Point.sub, center, sub_neg]
  split_ifs <;> rfl

variable (hfit : radii.AtMost (min b.size.width b.size.height / 2))
include hfit

theorem isClosed_rounded : IsClosed (b.rounded radii) := by
  have hsublevel : b.rounded radii = {v | b.roundedDistance radii ⟨v.1, v.2⟩ ≤ 0} :=
    Set.ext (mem_rounded_iff hwidth hheight hnonneg)
  rw [hsublevel]
  exact isClosed_le (continuous_roundedDistance hfit) continuous_const

theorem mem_interior_rounded_iff (v : ℝ × ℝ) :
    v ∈ interior (b.rounded radii) ↔ b.roundedDistance radii ⟨v.1, v.2⟩ < 0 := by
  constructor
  · intro hv
    obtain ⟨ε, hε, hball⟩ := Metric.mem_nhds_iff.mp (mem_interior_iff_mem_nhds.mp hv)
    obtain ⟨w, hdist, hgrow⟩ := b.roundedDistance_lt_outward radii v (half_pos hε)
    have hw : w ∈ b.rounded radii := hball (by rw [Metric.mem_ball, hdist]; exact half_lt_self hε)
    exact hgrow.trans_le ((mem_rounded_iff hwidth hheight hnonneg w).mp hw)
  · intro hv
    have hopen : IsOpen {v : ℝ × ℝ | b.roundedDistance radii ⟨v.1, v.2⟩ < 0} :=
      isOpen_lt (continuous_roundedDistance hfit) continuous_const
    refine interior_maximal (fun w hw => ?_) hopen hv
    exact (mem_rounded_iff hwidth hheight hnonneg w).mpr (le_of_lt hw)

/-- For a rectangle with corners that its shorter side has room for, the signed distance is negative
inside, zero on the boundary and positive outside of the shape. -/
theorem roundedDistance_sign (p : Point ℝ) :
    (b.roundedDistance radii p < 0 ↔ (p.x, p.y) ∈ interior (b.rounded radii))
      ∧ (b.roundedDistance radii p = 0 ↔ (p.x, p.y) ∈ frontier (b.rounded radii))
      ∧ (0 < b.roundedDistance radii p ↔ (p.x, p.y) ∉ b.rounded radii) := by
  have hinside := mem_interior_rounded_iff hwidth hheight hnonneg hfit (p.x, p.y)
  have hshape := mem_rounded_iff hwidth hheight hnonneg (p.x, p.y)
  refine ⟨hinside.symm, ?_, ?_⟩
  · rw [(isClosed_rounded hwidth hheight hnonneg hfit).frontier_eq, Set.mem_sdiff, hshape, hinside,
      not_lt]
    exact le_antisymm_iff
  · rw [hshape, not_le]

end

/-- A square with four different corners: its centre, the point where a round half of the top side
meets a straight one, and the corner that a small radius cuts off. -/
theorem roundedDistance_sign_uneven :
    let b : Bounds ℝ := .of 0 0 10 10
    let radii : Corners ℝ := ⟨5, 0, 2, 4⟩
    radii.Nonneg ∧ radii.AtMost (min b.size.width b.size.height / 2)
      ∧ ((5, 5) : ℝ × ℝ) ∈ interior (b.rounded radii)
      ∧ ((5, 0) : ℝ × ℝ) ∈ frontier (b.rounded radii)
      ∧ ((10, 10) : ℝ × ℝ) ∉ b.rounded radii := by
  intro b radii
  have hnonneg : radii.Nonneg := by constructor <;> norm_num [radii]
  have hfit : radii.AtMost (min b.size.width b.size.height / 2) := by
    constructor <;> norm_num [radii, b, Bounds.of]
  have hside : (0 : ℝ) ≤ 10 := by norm_num
  have hsign := roundedDistance_sign (b := b) hside hside hnonneg hfit
  have hcenter : b.roundedDistance radii ⟨5, 5⟩ = -5 := by
    have hradius : b.quadrantRadius radii (5, 5) = 2 := by
      norm_num [quadrantRadius, Corners.radiusAt, Point.sub, center, Bounds.of, b, radii]
    have hdepth : b.depthX (5, 5) = 5 ∧ b.depthY (5, 5) = 5 := by
      norm_num [depthX, depthY, depth, Bounds.of, b]
    rw [b.roundedDistance_eq radii (5, 5), hradius,
      quadrantDistance_of_deep (.inl (by rw [hdepth.1]; norm_num)), hdepth.1, hdepth.2, min_self]
  have hseam : b.roundedDistance radii ⟨5, 0⟩ = 0 := by
    have hradius : b.quadrantRadius radii (5, 0) = 0 := by
      norm_num [quadrantRadius, Corners.radiusAt, Point.sub, center, Bounds.of, b, radii]
    have hdepth : b.depthX (5, 0) = 5 ∧ b.depthY (5, 0) = 0 := by
      norm_num [depthX, depthY, depth, Bounds.of, b]
    rw [b.roundedDistance_eq radii (5, 0), hradius,
      quadrantDistance_of_deep (.inl (by rw [hdepth.1]; norm_num)), hdepth.1, hdepth.2,
      min_eq_right (by norm_num), neg_zero]
  have hcorner : 0 < b.roundedDistance radii ⟨10, 10⟩ := by
    have hradius : b.quadrantRadius radii (10, 10) = 2 := by
      norm_num [quadrantRadius, Corners.radiusAt, Point.sub, center, Bounds.of, b, radii]
    have hdepth : b.depthX (10, 10) = 0 ∧ b.depthY (10, 10) = 0 := by
      norm_num [depthX, depthY, depth, Bounds.of, b]
    rw [b.roundedDistance_eq radii (10, 10), hradius, quadrantDistance, hdepth.1, hdepth.2,
      ← not_le, cornerDistance_nonpos_iff (by norm_num)]
    norm_num [CornerLeaves]
  exact ⟨hnonneg, hfit, (hsign ⟨5, 5⟩).1.mp (by rw [hcenter]; norm_num),
    (hsign ⟨5, 0⟩).2.1.mp hseam, (hsign ⟨10, 10⟩).2.2.mp hcorner⟩

end Bounds

end Raster
