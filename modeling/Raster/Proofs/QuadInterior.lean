import Raster.Scalar.Real
import Raster.Proofs.Clipping
import Raster.Proofs.Hsl

/-!
# The interior of a quad

The second stage of a quad skips the distances where a pixel is clear of the
border and of the rounded corners (`QuadCorner.isInterior`). There the
distances show no border, and fade the fill by how far the nearer side is
away (`QuadCorner.colorByDistance_of_interior`).

A side with a border keeps interior points half a pixel and more away, out
of reach of the outer ramp. A side without one does not: its border is taken
to lie half a pixel outside, so the interior reaches up to the side itself.
Skipping the distances therefore changes nothing exactly where all sides are
half a pixel away or the fill is transparent (`Quad.shade_interior_iff`).
Closer to a side the ramp of the distances is cut off
(`Quad.shade_beside_straight_side`).
-/

namespace Raster

/-! ## Distances beside a corner -/

/-- Where a point is not beyond both sides of a corner's circle, its distance to the rounded corner
is that to the nearer straight side. -/
theorem cornerDistance_of_side {p : Point ℝ} (h : p.x ≤ 0 ∨ p.y ≤ 0) (radius : ℝ) :
    cornerDistance p radius = max p.x p.y - radius := by
  unfold cornerDistance
  split
  next hradius => rw [Scalar.beq_iff_eq.mp hradius, sub_zero]
  next =>
    -- one leg is zero, so the hypotenuse is the other leg
    have hleg : Scalar.hypot (max 0 p.x) (max 0 p.y) = max 0 (max p.x p.y) := by
      show Real.sqrt (max 0 p.x * max 0 p.x + max 0 p.y * max 0 p.y) = _
      rcases h with hx | hy
      · rw [max_eq_left hx, mul_zero, zero_add, Real.sqrt_mul_self (le_max_left ..), ← max_assoc,
          max_eq_left hx]
      · rw [max_eq_left hy, mul_zero, add_zero, Real.sqrt_mul_self (le_max_left ..), max_comm p.x,
          ← max_assoc, max_eq_left hy]
    have hsum : max 0 (max p.x p.y) + min 0 (max p.x p.y) = max p.x p.y := by
      rw [max_add_min, zero_add]
    dsimp only
    rw [hleg, hsum]

theorem rampHalf_eq : (rampHalf : ℝ) = 1 / 2 := by
  show (0.5 : ℝ) = 1 / 2
  norm_num

theorem effectiveBorder_zero : effectiveBorder (0 : ℝ) = -rampHalf :=
  if_pos (Scalar.beq_iff_eq.mpr rfl)

namespace QuadCorner

variable {c : QuadCorner ℝ}

theorem isInterior_iff : c.isInterior = true ↔
    (c.fromInner.x < -rampHalf ∧ c.fromInner.y < -rampHalf)
      ∧ (c.fromCircle.x < 0 ∨ c.fromCircle.y < 0) := by
  simp only [isInterior, Bool.and_eq_true, Bool.not_eq_true', Bool.and_eq_false_iff,
    decide_eq_true_iff, decide_eq_false_iff_not, not_le]

theorem max_fromCircle (c : QuadCorner ℝ) :
    max c.fromCircle.x c.fromCircle.y = max c.fromCorner.x c.fromCorner.y + c.radius :=
  max_add_add_right ..

theorem outer_of_side (h : c.fromCircle.x ≤ 0 ∨ c.fromCircle.y ≤ 0) :
    c.outer = max c.fromCorner.x c.fromCorner.y := by
  rw [outer, cornerDistance_of_side h, max_fromCircle, add_sub_cancel_right]

theorem outer_of_interior (h : c.isInterior = true) :
    c.outer = max c.fromCorner.x c.fromCorner.y := by
  obtain ⟨-, hside⟩ := isInterior_iff.mp h
  exact outer_of_side (hside.imp le_of_lt le_of_lt)

/-- The inside edge of the border is more than half a pixel away. -/
theorem lt_inner_of_interior (h : c.isInterior = true) : rampHalf < c.inner := by
  obtain ⟨⟨hx, hy⟩, hside⟩ := isInterior_iff.mp h
  have hinner : c.inner = -max c.fromInner.x c.fromInner.y :=
    if_pos (hside.imp le_of_lt le_of_lt)
  rw [hinner, lt_neg]
  exact max_lt hx hy

/-- Inside, the distances show the fill alone, faded by how far the nearer side is away. -/
theorem colorByDistance_of_interior (h : c.isInterior = true) (fill border : Rgba ℝ)
    (premultiplied : Bool) :
    c.colorByDistance fill border premultiplied
      = fill.fade (saturate (rampHalf - max c.fromCorner.x c.fromCorner.y)) premultiplied := by
  have hclear : ¬ max c.inner c.outer < rampHalf :=
    not_lt.mpr ((lt_inner_of_interior h).le.trans (le_max_left ..))
  rw [colorByDistance, mixBorder, if_neg hclear, outer_of_interior h]

end QuadCorner

/-- A coverage other than 1 is seen unless there is nothing to cover with. -/
theorem Rgba.fade_eq_fade_one_iff (c : Rgba ℝ) (coverage : ℝ) (premultiplied : Bool) :
    c.fade 1 premultiplied = c.fade coverage premultiplied ↔ c.a = 0 ∨ coverage = 1 := by
  constructor
  · intro h
    have halpha : c.a * 1 = c.a * coverage := congrArg Rgba.a h
    rcases mul_eq_mul_left_iff.mp halpha with hone | hempty
    · exact Or.inr hone.symm
    · exact Or.inl hempty
  · rintro (hempty | rfl)
    · simp only [fade, hempty, zero_mul]
    · rfl

namespace Quad

/-- Whether a point is half a pixel or more inside all sides of a quad. -/
def Deep (q : Quad ℝ) (p : Point ℝ) : Prop :=
  (q.bounds.origin.x + 1 / 2 ≤ p.x ∧ p.x ≤ q.bounds.origin.x + q.bounds.size.width - 1 / 2)
    ∧ q.bounds.origin.y + 1 / 2 ≤ p.y
      ∧ p.y ≤ q.bounds.origin.y + q.bounds.size.height - 1 / 2

theorem deep_iff (q : Quad ℝ) (p : Point ℝ) :
    q.Deep p ↔ (q.corner p).fromCorner.x ≤ -rampHalf ∧ (q.corner p).fromCorner.y ≤ -rampHalf := by
  have hside (start extent v : ℝ) :
      (start + 1 / 2 ≤ v ∧ v ≤ start + extent - 1 / 2)
        ↔ |v - (start + extent / 2)| - extent / 2 ≤ -(1 / 2) := by
    rw [sub_le_iff_le_add, abs_le]
    constructor
    · rintro ⟨hlow, hhigh⟩
      constructor <;> linarith
    · rintro ⟨hlow, hhigh⟩
      constructor <;> linarith
  rw [rampHalf_eq, Deep, hside, hside]
  rfl

/-- A side with a border keeps interior points away from it. -/
theorem deep_of_interior_of_bordered {q : Quad ℝ} {p : Point ℝ}
    (hinterior : (q.corner p).isInterior = true)
    (hx : 0 ≤ (q.corner p).border.x) (hy : 0 ≤ (q.corner p).border.y) : q.Deep p := by
  obtain ⟨⟨hleft, htop⟩, -⟩ := QuadCorner.isInterior_iff.mp hinterior
  refine (q.deep_iff p).mpr ⟨?_, ?_⟩
  · exact (le_add_of_nonneg_right hx).trans hleft.le
  · exact (le_add_of_nonneg_right hy).trans htop.le

/-- The second stage at an interior point that is not clipped. -/
theorem shade_interior {q : Quad ℝ} {p : Point ℝ} {ctx : FrameContext ℝ}
    (hmask : q.contentMask.clips p = false) (hplain : q.isPlain = false)
    (hinterior : (q.corner p).isInterior = true) :
    q.shade p ctx = (q.fill.prepare.colorAt p q.bounds).fade 1 ctx.premultipliedAlpha := by
  unfold shade evaluate project
  dsimp only
  rw [hmask, hplain, hinterior]
  rfl

/-- Outside the interior the second stage goes by the distances. -/
theorem shade_of_not_interior {q : Quad ℝ} {p : Point ℝ} {ctx : FrameContext ℝ}
    (hmask : q.contentMask.clips p = false) (hplain : q.isPlain = false)
    (hinterior : (q.corner p).isInterior = false) :
    q.shade p ctx = (q.corner p).colorByDistance (q.fill.prepare.colorAt p q.bounds)
      q.borderColor.toLinear ctx.premultipliedAlpha := by
  unfold shade evaluate project
  dsimp only
  rw [hmask, hplain, hinterior]
  rfl

/-- Inside a quad, skipping the distances changes nothing exactly where all sides are half a pixel
away or the fill is transparent. Beside two borders the first is always so. -/
theorem shade_interior_iff {q : Quad ℝ} {p : Point ℝ} {ctx : FrameContext ℝ}
    (hmask : q.contentMask.clips p = false) (hplain : q.isPlain = false)
    (hinterior : (q.corner p).isInterior = true) :
    (q.shade p ctx = (q.corner p).colorByDistance (q.fill.prepare.colorAt p q.bounds)
          q.borderColor.toLinear ctx.premultipliedAlpha
        ↔ (q.fill.prepare.colorAt p q.bounds).a = 0 ∨ q.Deep p)
      ∧ (0 < (q.corner p).border.x → 0 < (q.corner p).border.y → q.Deep p) := by
  constructor
  · have hramp : saturate (rampHalf - max (q.corner p).fromCorner.x (q.corner p).fromCorner.y) = 1
        ↔ q.Deep p := by
      rw [saturate_eq_one_iff, deep_iff, ← max_le_iff, rampHalf_eq]
      constructor <;> intro h <;> linarith
    rw [shade_interior hmask hplain hinterior, QuadCorner.colorByDistance_of_interior hinterior,
      Rgba.fade_eq_fade_one_iff, hramp]
  · intro hx hy
    exact deep_of_interior_of_bordered hinterior hx.le hy.le

/-! ## A rounded square without a border -/

/-- A red square with rounded corners and no border. -/
def roundedSquare {α : Type} [Scalar α] : Quad α :=
  ⟨⟨0, .of 0 0 100 100, .of 0 0 100 100⟩, .solid ⟨0, 1, 0.5, 1⟩, ⟨0, 0, 0, 1⟩, ⟨8, 8, 8, 8⟩,
    ⟨0, 0, 0, 0⟩⟩

/-- The square seen from points to the left and above its centre. -/
theorem corner_roundedSquare_of_le {x y : ℝ} (hx : x ≤ 50) (hy : y ≤ 50) :
    roundedSquare.corner ⟨x, y⟩ = ⟨8, ⟨-rampHalf, -rampHalf⟩, ⟨-x, -y⟩⟩ := by
  have hcenter : (roundedSquare : Quad ℝ).bounds.center = ⟨50, 50⟩ := by
    norm_num [roundedSquare, Bounds.of, Bounds.center]
  have hbeyond : (roundedSquare : Quad ℝ).bounds.beyondCorner ⟨x - 50, y - 50⟩ = ⟨-x, -y⟩ := by
    show (⟨|x - 50| - 100 / 2, |y - 50| - 100 / 2⟩ : Point ℝ) = _
    rw [abs_of_nonpos (sub_nonpos.mpr hx), abs_of_nonpos (sub_nonpos.mpr hy), Point.mk.injEq]
    constructor <;> ring
  have hradius (v : Point ℝ) : (roundedSquare : Quad ℝ).cornerRadii.radiusAt v = 8 :=
    Corners.radiusAt_of_eq rfl v
  unfold corner
  rw [hcenter, Point.sub]
  dsimp only
  rw [hbeyond, hradius]
  show QuadCorner.mk 8 ⟨effectiveBorder (if x - 50 < 0 then 0 else 0),
    effectiveBorder (if y - 50 < 0 then 0 else 0)⟩ _ = _
  rw [ite_self, ite_self, effectiveBorder_zero]

/-- The square seen from points on its vertical centre line, above the middle. -/
theorem corner_roundedSquare {y : ℝ} (hy : y < 50) :
    roundedSquare.corner ⟨50, y⟩ = ⟨8, ⟨-rampHalf, -rampHalf⟩, ⟨-50, -y⟩⟩ :=
  corner_roundedSquare_of_le le_rfl hy.le

theorem isInterior_roundedSquare {y : ℝ} (hlow : 0 < y) (hhigh : y < 50) :
    (roundedSquare.corner ⟨50, y⟩).isInterior = true := by
  rw [corner_roundedSquare hhigh, QuadCorner.isInterior_iff]
  refine ⟨⟨?_, ?_⟩, Or.inl ?_⟩
  · show -50 + -rampHalf < -(rampHalf : ℝ)
    linarith
  · show -y + -rampHalf < -(rampHalf : ℝ)
    linarith
  · show (-50 + 8 : ℝ) < 0
    norm_num

theorem not_clips_roundedSquare {y : ℝ} (hlow : 0 < y) (hhigh : y < 50) :
    (roundedSquare : Quad ℝ).contentMask.clips ⟨50, y⟩ = false := by
  rw [Bool.eq_false_iff, ne_eq, Bounds.clips_iff]
  show ¬ ((50 < (0 : ℝ) ∨ 0 + 100 < (50 : ℝ)) ∨ y < 0 ∨ 0 + 100 < y)
  rintro ((h | h) | h | h) <;> linarith

theorem isPlain_roundedSquare : (roundedSquare : Quad ℝ).isPlain = false := by
  have hradius : ((8 : ℝ) == 0) = false := decide_eq_false (by norm_num)
  unfold isPlain roundedSquare
  simp only [hradius, Bool.false_and]

/-- Half a pixel below the upper side the distances give what skipping them gives. -/
theorem shade_interior_iff_half_pixel :
    let q : Quad ℝ := roundedSquare
    let p : Point ℝ := ⟨50, 1 / 2⟩
    let ctx : FrameContext ℝ := ⟨⟨100, 100⟩, true, 4, false, none⟩
    q.contentMask.clips p = false ∧ q.isPlain = false ∧ (q.corner p).isInterior = true
      ∧ q.shade p ctx = (q.corner p).colorByDistance (q.fill.prepare.colorAt p q.bounds)
          q.borderColor.toLinear ctx.premultipliedAlpha := by
  intro q p ctx
  have hlow : (0 : ℝ) < 1 / 2 := by norm_num
  have hhigh : (1 / 2 : ℝ) < 50 := by norm_num
  have hmask := not_clips_roundedSquare hlow hhigh
  have hinterior := isInterior_roundedSquare hlow hhigh
  have hdeep : q.Deep p := by norm_num [q, p, Deep, roundedSquare, Bounds.of]
  exact ⟨hmask, isPlain_roundedSquare, hinterior,
    (shade_interior_iff hmask isPlain_roundedSquare hinterior).1.mpr (Or.inr hdeep)⟩

/-- A quarter of a pixel below the upper side the square is covered throughout, and the distances
would fade it to three quarters. -/
theorem shade_beside_straight_side :
    let q : Quad ℝ := roundedSquare
    let p : Point ℝ := ⟨50, 1 / 4⟩
    let ctx : FrameContext ℝ := ⟨⟨100, 100⟩, false, 4, false, none⟩
    q.contentMask.clips p = false ∧ q.isPlain = false ∧ (q.corner p).isInterior = true
      ∧ (q.shade p ctx).a = 1
      ∧ ((q.corner p).colorByDistance (q.fill.prepare.colorAt p q.bounds)
          q.borderColor.toLinear ctx.premultipliedAlpha).a = 3 / 4 := by
  intro q p ctx
  have hlow : (0 : ℝ) < 1 / 4 := by norm_num
  have hhigh : (1 / 4 : ℝ) < 50 := by norm_num
  have hmask := not_clips_roundedSquare hlow hhigh
  have hinterior := isInterior_roundedSquare hlow hhigh
  have hfill : (q.fill.prepare.colorAt p q.bounds).a = 1 := Hsla.alpha_toLinear _
  refine ⟨hmask, isPlain_roundedSquare, hinterior, ?_, ?_⟩
  · rw [shade_interior hmask isPlain_roundedSquare hinterior]
    show (q.fill.prepare.colorAt p q.bounds).a * 1 = 1
    rw [hfill, mul_one]
  · have hcoverage : saturate (rampHalf - max (-50) (-(1 / 4)) : ℝ) = 3 / 4 := by
      rw [rampHalf_eq, max_eq_right (by norm_num), saturate_eq_self (by norm_num) (by norm_num)]
      norm_num
    rw [QuadCorner.colorByDistance_of_interior hinterior, corner_roundedSquare hhigh]
    show (q.fill.prepare.colorAt p q.bounds).a * saturate (rampHalf - max (-50) (-(1 / 4))) = _
    rw [hfill, hcoverage, one_mul]

end Quad

end Raster
