import Mathlib.Analysis.CStarAlgebra.Classes
import Mathlib.Analysis.Complex.Basic
import Raster.Proofs.MissingBorder

/-!
# Corners of the inside edge

In a rounded corner the inside edge of a border is a quarter of an ellipse.
Between borders of one width it is a circle around the centre of the
outline's, and how far it is away is told by the outline instead of the
formula for ellipses. Both tell the same (`Quad.equal_corner_is_ellipse`):
a scaled vector has the scaled length (`hypot_div`), so in the formula the
scaling to the unit circle and back cancels. Missing borders take part, with
their width of minus half a pixel.

Both tell the same exactly where the circle has a radius that an ellipse can
have, a millionth of a pixel or more
(`QuadCorner.BetweenEqualBorders.inner_eq_ellipseDistance_iff`).

The distance to an ellipse is approximate. Its sign is not: for any two radii
it tells inside, boundary and outside (`ellipseDistance_sign`), because
scaling along the axes makes the ellipse the unit disk (`toUnitDisk`).
-/

namespace Raster

/-! ## Lengths -/

theorem hypot_eq_norm (x y : ℝ) : Scalar.hypot x y = ‖(⟨x, y⟩ : ℂ)‖ := by
  rw [Complex.norm_def, Complex.normSq_mk]
  rfl

theorem hypot_div {s : ℝ} (hs : 0 < s) (x y : ℝ) :
    Scalar.hypot (x / s) (y / s) = Scalar.hypot x y / s := by
  have hscaled : (⟨x / s, y / s⟩ : ℂ) = ⟨x, y⟩ / (s : ℂ) :=
    Complex.ext (by rw [Complex.div_ofReal_re]) (by rw [Complex.div_ofReal_im])
  rw [hypot_eq_norm, hypot_eq_norm, hscaled, norm_div, Complex.norm_real, Real.norm_of_nonneg hs.le]

/-! ## Ellipses -/

theorem minEllipseRadius_mem : (minEllipseRadius : ℝ) ∈ Set.Ioo (0 : ℝ) 1 := by
  show (1e-6 : ℝ) ∈ Set.Ioo (0 : ℝ) 1
  norm_num

/-- The ellipse around the origin with given radii along the axes, boundary included. -/
def ellipse (radii : Point ℝ) : Set (ℝ × ℝ) :=
  {v | (v.1 / radii.x) ^ 2 + (v.2 / radii.y) ^ 2 ≤ 1}

section
variable {radii : Point ℝ} (hx : 0 < radii.x) (hy : 0 < radii.y)

/-- Scaling along the axes, by which an ellipse becomes the unit disk. -/
noncomputable def toUnitDisk : ℝ × ℝ ≃ₜ ℂ :=
  ((Homeomorph.mulRight₀ radii.x⁻¹ (inv_ne_zero hx.ne')).prodCongr
      (Homeomorph.mulRight₀ radii.y⁻¹ (inv_ne_zero hy.ne'))).trans
    Complex.equivRealProdCLM.symm.toHomeomorph

theorem norm_toUnitDisk (v : ℝ × ℝ) :
    ‖toUnitDisk hx hy v‖ = Scalar.hypot (v.1 / radii.x) (v.2 / radii.y) := by
  rw [hypot_eq_norm]
  rfl

theorem ellipse_eq_preimage :
    ellipse radii = Set.preimage (toUnitDisk hx hy) (Metric.closedBall 0 1) := by
  ext v
  rw [Set.mem_preimage, mem_closedBall_zero_iff, norm_toUnitDisk]
  show _ ↔ Real.sqrt _ ≤ 1
  rw [Real.sqrt_le_one, ← sq, ← sq]
  rfl

include hx hy

theorem mem_ellipse_iff (v : ℝ × ℝ) :
    v ∈ ellipse radii ↔ Scalar.hypot (v.1 / radii.x) (v.2 / radii.y) ≤ 1 := by
  rw [ellipse_eq_preimage hx hy, Set.mem_preimage, mem_closedBall_zero_iff, norm_toUnitDisk]

theorem mem_interior_ellipse_iff (v : ℝ × ℝ) :
    v ∈ interior (ellipse radii) ↔ Scalar.hypot (v.1 / radii.x) (v.2 / radii.y) < 1 := by
  rw [ellipse_eq_preimage hx hy, ← Homeomorph.preimage_interior, interior_closedBall _ one_ne_zero,
    Set.mem_preimage, mem_ball_zero_iff, norm_toUnitDisk]

theorem mem_frontier_ellipse_iff (v : ℝ × ℝ) :
    v ∈ frontier (ellipse radii) ↔ Scalar.hypot (v.1 / radii.x) (v.2 / radii.y) = 1 := by
  rw [ellipse_eq_preimage hx hy, ← Homeomorph.preimage_frontier, frontier_closedBall _ one_ne_zero,
    Set.mem_preimage, mem_sphere_zero_iff_norm, norm_toUnitDisk]

end

theorem ellipseDistance_eq (v radii : Point ℝ) :
    ellipseDistance v radii
      = (1 - Scalar.hypot (v.x / max radii.x minEllipseRadius) (v.y / max radii.y minEllipseRadius))
        * ((max radii.x minEllipseRadius + max radii.y minEllipseRadius) / 2) := by
  unfold ellipseDistance
  dsimp only
  show _ * (-(0.5 : ℝ)) = _
  ring

/-- The distance to a circle is not approximate. -/
theorem ellipseDistance_circle (v : Point ℝ) (radius : ℝ) :
    ellipseDistance v ⟨radius, radius⟩ = max radius minEllipseRadius - Scalar.hypot v.x v.y := by
  have hpos : 0 < max radius minEllipseRadius := minEllipseRadius_mem.1.trans_le (le_max_right ..)
  rw [ellipseDistance_eq, hypot_div hpos, add_self_div_two, sub_mul, one_mul,
    div_mul_cancel₀ _ hpos.ne']

theorem ellipseDistance_sign {radii : Point ℝ} (hx : minEllipseRadius ≤ radii.x)
    (hy : minEllipseRadius ≤ radii.y) (v : Point ℝ) :
    (0 < ellipseDistance v radii ↔ (v.x, v.y) ∈ interior (ellipse radii))
      ∧ (ellipseDistance v radii = 0 ↔ (v.x, v.y) ∈ frontier (ellipse radii))
      ∧ (ellipseDistance v radii < 0 ↔ (v.x, v.y) ∉ ellipse radii) := by
  have hposX : 0 < radii.x := minEllipseRadius_mem.1.trans_le hx
  have hposY : 0 < radii.y := minEllipseRadius_mem.1.trans_le hy
  have hmean : 0 < (radii.x + radii.y) / 2 := half_pos (add_pos hposX hposY)
  rw [ellipseDistance_eq, max_eq_left hx, max_eq_left hy, mem_interior_ellipse_iff hposX hposY,
    mem_frontier_ellipse_iff hposX hposY, mem_ellipse_iff hposX hposY, not_le]
  refine ⟨?_, ?_, ?_⟩
  · rw [mul_pos_iff_of_pos_right hmean, sub_pos]
  · rw [mul_eq_zero_iff_right hmean.ne', sub_eq_zero, eq_comm]
  · rw [← neg_pos, ← neg_mul, mul_pos_iff_of_pos_right hmean, neg_pos, sub_neg]

/-! ## Between borders of one width -/

namespace QuadCorner

/-- A place beyond both sides of the corner's circle and inside two borders of one width. -/
structure BetweenEqualBorders (c : QuadCorner ℝ) : Prop where
  fromCircle_x_pos : 0 < c.fromCircle.x
  fromCircle_y_pos : 0 < c.fromCircle.y
  fromInner_x_nonpos : c.fromInner.x ≤ 0
  fromInner_y_nonpos : c.fromInner.y ≤ 0
  border_eq : c.border.x = c.border.y

/-- The colour by distances, with a given one to the inside edge of the border. -/
noncomputable def colorByInner (c : QuadCorner ℝ) (inner : ℝ) (fill border : Rgba ℝ)
    (premultiplied : Bool) : Rgba ℝ :=
  (if max inner c.outer < rampHalf then
      fill.lerp (fill.coveredBy border) (saturate (rampHalf - inner))
    else fill).fade (saturate (rampHalf - c.outer)) premultiplied

theorem colorByDistance_eq (c : QuadCorner ℝ) (fill border : Rgba ℝ) (premultiplied : Bool) :
    c.colorByDistance fill border premultiplied
      = c.colorByInner c.inner fill border premultiplied := rfl

namespace BetweenEqualBorders

variable {c : QuadCorner ℝ} (h : c.BetweenEqualBorders)
include h

theorem isInterior_eq_false : c.isInterior = false := by
  rw [Bool.eq_false_iff, ne_eq, isInterior_iff]
  rintro ⟨-, hx | hy⟩
  · exact hx.not_gt h.fromCircle_x_pos
  · exact hy.not_gt h.fromCircle_y_pos

theorem inner_eq : c.inner = -(c.outer + c.border.x) := by
  have hround : ¬ (c.fromCircle.x ≤ 0 ∨ c.fromCircle.y ≤ 0) :=
    not_or.mpr ⟨h.fromCircle_x_pos.not_ge, h.fromCircle_y_pos.not_ge⟩
  have hinside : ¬ (0 < c.fromInner.x ∨ 0 < c.fromInner.y) :=
    not_or.mpr ⟨h.fromInner_x_nonpos.not_gt, h.fromInner_y_nonpos.not_gt⟩
  rw [inner, if_neg hround, if_neg hinside, if_pos (Scalar.beq_iff_eq.mpr h.border_eq)]

variable (hradius : c.radius ≠ 0)
include hradius

theorem inner_eq_sub_hypot :
    c.inner = c.radius - c.border.x - Scalar.hypot c.fromCircle.x c.fromCircle.y := by
  have houter : c.outer = Scalar.hypot c.fromCircle.x c.fromCircle.y - c.radius :=
    cornerDistance_of_round h.fromCircle_x_pos h.fromCircle_y_pos hradius
  rw [h.inner_eq, houter]
  ring

/-- A radius that is less than an ellipse can have is raised for the ellipse only. -/
theorem inner_eq_ellipseDistance_iff :
    c.inner = ellipseDistance c.fromCircle ⟨c.radius - c.border.x, c.radius - c.border.x⟩
      ↔ minEllipseRadius ≤ c.radius - c.border.x := by
  rw [h.inner_eq_sub_hypot hradius, ellipseDistance_circle, sub_left_inj, left_eq_sup]

end BetweenEqualBorders

end QuadCorner

namespace Quad

theorem cornerRadii_of_plain {q : Quad ℝ} (hplain : q.isPlain = true) :
    q.cornerRadii = ⟨0, 0, 0, 0⟩ := by
  simp only [isPlain, Bool.and_eq_true, Scalar.beq_iff_eq] at hplain
  obtain ⟨⟨⟨⟨⟨⟨⟨htopLeft, htopRight⟩, hbottomRight⟩, hbottomLeft⟩, -⟩, -⟩, -⟩, -⟩ := hplain
  show (⟨q.cornerRadii.topLeft, q.cornerRadii.topRight, q.cornerRadii.bottomRight,
    q.cornerRadii.bottomLeft⟩ : Corners ℝ) = _
  rw [htopLeft, htopRight, hbottomRight, hbottomLeft]

/-- In a rounded corner, where a point is inside both borders and these have one width, the distance
to the inside edge is the one that the outline tells. It is the distance to the ellipse whose radii
are both the corner's less the width, exactly if an ellipse can have such radii, and the pixel has
the colour that goes with it. The distance to an ellipse with any radii is positive inside, zero on
the boundary and negative outside. -/
theorem equal_corner_is_ellipse (q : Quad ℝ) (p : Point ℝ) (ctx : FrameContext ℝ)
    (radii v : Point ℝ) :
    let c := q.corner p
    let radius := c.radius - c.border.x
    (c.BetweenEqualBorders → 0 < c.radius →
        c.inner = -(c.outer + c.border.x)
          ∧ (-(c.outer + c.border.x) = ellipseDistance c.fromCircle ⟨radius, radius⟩
            ↔ minEllipseRadius ≤ radius)
          ∧ (minEllipseRadius ≤ radius → q.contentMask.clips p = false →
            q.shade p ctx = c.colorByInner (ellipseDistance c.fromCircle ⟨radius, radius⟩)
              (q.fill.prepare.colorAt p q.bounds) q.borderColor.toLinear ctx.premultipliedAlpha))
      ∧ (minEllipseRadius ≤ radii.x → minEllipseRadius ≤ radii.y →
        (0 < ellipseDistance v radii ↔ (v.x, v.y) ∈ interior (ellipse radii))
          ∧ (ellipseDistance v radii = 0 ↔ (v.x, v.y) ∈ frontier (ellipse radii))
          ∧ (ellipseDistance v radii < 0 ↔ (v.x, v.y) ∉ ellipse radii)) := by
  intro c radius
  refine ⟨fun hcorner hradius => ?_, fun hx hy => ellipseDistance_sign hx hy v⟩
  have hellipse := hcorner.inner_eq_ellipseDistance_iff hradius.ne'
  refine ⟨hcorner.inner_eq, hcorner.inner_eq ▸ hellipse, fun hroom hmask => ?_⟩
  have hplain : q.isPlain = false := by
    rw [Bool.eq_false_iff]
    intro hplain
    exact hradius.ne' (Corners.radiusAt_of_eq (cornerRadii_of_plain hplain) _)
  rw [shade_of_not_interior hmask hplain hcorner.isInterior_eq_false,
    QuadCorner.colorByDistance_eq, hellipse.mpr hroom]

/-- A point of a rounded square is three pixels inside the outline and, without a border, three and
a half inside the circle that stands for the inside edge. Another is on an ellipse with different
radii. -/
theorem equal_corner_is_ellipse_missing_border :
    let q : Quad ℝ := roundedSquare
    let p : Point ℝ := ⟨8 - 3 / 5 * 5, 8 - 4 / 5 * 5⟩
    let c := q.corner p
    let radii : Point ℝ := ⟨3, 5⟩
    let ctx : FrameContext ℝ := ⟨⟨100, 100⟩, false, 4, false, none⟩
    q.borderWidths = ⟨0, 0, 0, 0⟩ ∧ c.BetweenEqualBorders ∧ 0 < c.radius
      ∧ minEllipseRadius ≤ c.radius - c.border.x ∧ q.contentMask.clips p = false
      ∧ c.outer = -3 ∧ ellipseDistance c.fromCircle ⟨17 / 2, 17 / 2⟩ = 7 / 2
      ∧ q.shade p ctx = c.colorByInner (7 / 2) (q.fill.prepare.colorAt p q.bounds)
          q.borderColor.toLinear ctx.premultipliedAlpha
      ∧ minEllipseRadius ≤ radii.x ∧ minEllipseRadius ≤ radii.y
      ∧ ((9 / 5, 4) : ℝ × ℝ) ∈ frontier (ellipse radii) := by
  intro q p c radii ctx
  have hc : c = ⟨8, ⟨-rampHalf, -rampHalf⟩, ⟨-p.x, -p.y⟩⟩ :=
    corner_roundedSquare_of_le (by norm_num) (by norm_num)
  have hborder : c.border.x = -(1 / 2) := by rw [hc, rampHalf_eq]
  have hradius : c.radius = 8 := by rw [hc]
  have hcorner : c.BetweenEqualBorders := by
    constructor <;> norm_num [hc, p, QuadCorner.fromCircle, QuadCorner.fromInner, rampHalf_eq]
  have hpositive : 0 < c.radius := by norm_num [hradius]
  have hwide : c.radius - c.border.x = 17 / 2 := by norm_num [hradius, hborder]
  have hlarge {x : ℝ} (hx : 1 ≤ x) : minEllipseRadius ≤ x := minEllipseRadius_mem.2.le.trans hx
  have hroom : minEllipseRadius ≤ c.radius - c.border.x := hlarge (by norm_num [hwide])
  have hx : minEllipseRadius ≤ radii.x := hlarge (by norm_num [radii])
  have hy : minEllipseRadius ≤ radii.y := hlarge (by norm_num [radii])
  have hmask : q.contentMask.clips p = false := by
    rw [Bool.eq_false_iff, ne_eq, Bounds.clips_iff]
    norm_num [q, p, roundedSquare, Bounds.of]
  have houter : c.outer = -3 := (outer_roundedSquare (by norm_num)).trans (by norm_num)
  have hon : ellipseDistance ⟨9 / 5, 4⟩ radii = 0 := by
    have hunit : Scalar.hypot (9 / 5 / 3) (4 / 5) = (1 : ℝ) := by
      refine Real.sqrt_eq_one.mpr ?_
      norm_num
    rw [ellipseDistance_eq, max_eq_left hx, max_eq_left hy, hunit, sub_self, zero_mul]
  obtain ⟨hequal, hsign⟩ := equal_corner_is_ellipse q p ctx radii ⟨9 / 5, 4⟩
  obtain ⟨-, hellipse, hcolor⟩ := hequal hcorner hpositive
  have hdistance : ellipseDistance c.fromCircle ⟨17 / 2, 17 / 2⟩ = 7 / 2 := by
    have hsame := hellipse.mpr hroom
    rw [hwide, houter, hborder] at hsame
    exact hsame.symm.trans (by norm_num)
  have hshade := hcolor hroom hmask
  rw [hwide, hdistance] at hshade
  exact ⟨rfl, hcorner, hpositive, hroom, hmask, houter, hdistance, hshade, hx, hy,
    (hsign hx hy).2.1.mp hon⟩

end Quad

end Raster
