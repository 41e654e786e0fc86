import Raster.Scalar.Real
import Raster.Proofs.NonzeroDivisors
import Raster.Proofs.QuadSymmetry

/-!
# Gradients follow their shape

A linear gradient moves with its rectangle, does not change under whole
turns of its angle, is mirrored with the sign of its angle, and read from
its other end is the same gradient (`gradient_symmetric`).

The angle enters through its sine and cosine alone, whatever the rounding of
the remainder does with its sign (`gradientDirection_eq`), so a symmetry of
the angle is a change of sign in the direction. What is left is a function of
the direction and of the vector from the centre (`axisAlong`). Which axis
dominates, and the length that is divided by, look at magnitudes; the half
extents that are added make the two ends of the axis add up to 1
(`axisAlong_neg`), and clamping keeps that sum (`saturate_one_sub`).
-/

namespace Raster

theorem saturate_one_sub (x : ℝ) : saturate (1 - x) = 1 - saturate x := by
  rcases le_or_gt x 0 with hlow | hlow
  · rw [saturate_of_nonpos hlow, sub_zero, saturate_eq_one_iff]
    linarith
  rcases le_or_gt 1 x with hhigh | hhigh
  · rw [saturate_eq_one_iff.mpr hhigh, sub_self, saturate_of_nonpos (sub_nonpos.mpr hhigh)]
  · rw [saturate_eq_self hlow.le hhigh.le, saturate_eq_self (by linarith) (by linarith)]

theorem Rgba.lerp_one_sub (c d : Rgba ℝ) (t : ℝ) : d.lerp c (1 - t) = c.lerp d t := by
  have hchannel (x y : ℝ) : Raster.lerp y x (1 - t) = Raster.lerp x y t := by
    show y + (x - y) * (1 - t) = x + (y - x) * t
    ring
  simp only [lerp, hchannel]

/-! ## Directions -/

/-- The angle of a gradient in radians. -/
noncomputable def heading (angle : ℝ) : ℝ := angle * Real.pi / 180

/-- Degrees that are reduced to one turn, and counted from the right instead of upward, differ
from the heading by a quarter turn and whole turns. -/
theorem exists_radians_eq (angle : ℝ) :
    ∃ k : ℤ, (Scalar.rem angle 360 - 90) * Scalar.pi / 180
      = heading angle - Real.pi / 2 - k * (2 * Real.pi) := by
  refine ⟨truncate (angle / 360), ?_⟩
  show (angle - 360 * (truncate (angle / 360) : ℝ) - 90) * Real.pi / 180 = _
  unfold heading
  ring

theorem gradientDirection_eq (angle : ℝ) (size : Size ℝ) :
    gradientDirection angle size = if size.height < size.width then
        ⟨Real.sin (heading angle), -Real.cos (heading angle) * (size.height / size.width)⟩
      else ⟨Real.sin (heading angle) * (size.width / max size.height gradientEpsilon),
        -Real.cos (heading angle)⟩ := by
  obtain ⟨k, hradians⟩ := exists_radians_eq angle
  have hcos : Scalar.cos (heading angle - Real.pi / 2 - k * (2 * Real.pi))
      = Real.sin (heading angle) := by
    show Real.cos _ = _
    rw [Real.cos_sub_int_mul_two_pi, Real.cos_sub_pi_div_two]
  have hsin : Scalar.sin (heading angle - Real.pi / 2 - k * (2 * Real.pi))
      = -Real.cos (heading angle) := by
    show Real.sin _ = _
    rw [Real.sin_sub_int_mul_two_pi, Real.sin_sub_pi_div_two]
  unfold gradientDirection
  dsimp only
  rw [hradians, hcos, hsin]

theorem gradientDirection_add_turns (angle : ℝ) (turns : ℤ) (size : Size ℝ) :
    gradientDirection (angle + 360 * turns) size = gradientDirection angle size := by
  have hheading : heading (angle + 360 * turns) = heading angle + turns * (2 * Real.pi) := by
    unfold heading
    ring
  rw [gradientDirection_eq, gradientDirection_eq, hheading, Real.sin_add_int_mul_two_pi,
    Real.cos_add_int_mul_two_pi]

theorem gradientDirection_neg (angle : ℝ) (size : Size ℝ) :
    gradientDirection (-angle) size
      = ⟨-(gradientDirection angle size).x, (gradientDirection angle size).y⟩ := by
  have hheading : heading (-angle) = -heading angle := by
    unfold heading
    ring
  rw [gradientDirection_eq, gradientDirection_eq, hheading, Real.sin_neg, Real.cos_neg]
  split
  · rfl
  · rw [neg_mul]

theorem gradientDirection_add_half_turn (angle : ℝ) (size : Size ℝ) :
    gradientDirection (angle + 180) size
      = ⟨-(gradientDirection angle size).x, -(gradientDirection angle size).y⟩ := by
  have hheading : heading (angle + 180) = heading angle + Real.pi := by
    unfold heading
    ring
  rw [gradientDirection_eq, gradientDirection_eq, hheading, Real.sin_add_pi, Real.cos_add_pi]
  split
  · rw [neg_mul (-_)]
  · rw [neg_mul]

/-! ## Along the axis -/

/-- How far along the axis of a direction a vector from the centre reaches. -/
def axisAlong {α : Type} [Scalar α] (dir : Point α) (size : Size α) (fromCenter : Point α) : α :=
  let length := max (Scalar.hypot dir.x dir.y) gradientEpsilon
  let along := (fromCenter.x * dir.x + fromCenter.y * dir.y) / length
  if Scalar.abs dir.y < Scalar.abs dir.x then
    (along + size.width / 2) / max size.width gradientEpsilon
  else (along + size.height / 2) / max size.height gradientEpsilon

theorem gradientAxis_eq (angle : ℝ) (p : Point ℝ) (b : Bounds ℝ) :
    gradientAxis angle p b
      = axisAlong (gradientDirection angle b.size) b.size (p.sub b.center) := rfl

theorem axisAlong_mirror (dir : Point ℝ) (size : Size ℝ) (v : Point ℝ) :
    axisAlong ⟨-dir.x, dir.y⟩ size ⟨-v.x, v.y⟩ = axisAlong dir size v := by
  have habs : Scalar.abs (-dir.x) = Scalar.abs dir.x := abs_neg dir.x
  have hlength : Scalar.hypot (-dir.x) dir.y = Scalar.hypot dir.x dir.y := by
    show Real.sqrt (-dir.x * -dir.x + dir.y * dir.y) = _
    rw [neg_mul_neg]
    rfl
  unfold axisAlong
  dsimp only
  rw [habs, hlength, neg_mul_neg]

/-- Against its direction an axis is counted from the other end. -/
theorem axisAlong_neg {size : Size ℝ} (hwidth : gradientEpsilon ≤ size.width)
    (hheight : gradientEpsilon ≤ size.height) (dir v : Point ℝ) :
    axisAlong ⟨-dir.x, -dir.y⟩ size v = 1 - axisAlong dir size v := by
  have habs (x : ℝ) : Scalar.abs (-x) = Scalar.abs x := abs_neg x
  have hlength : Scalar.hypot (-dir.x) (-dir.y) = Scalar.hypot dir.x dir.y := by
    show Real.sqrt (-dir.x * -dir.x + -dir.y * -dir.y) = _
    rw [neg_mul_neg, neg_mul_neg]
    rfl
  have hends {along extent : ℝ} (hextent : gradientEpsilon ≤ extent) :
      (-along + extent / 2) / max extent gradientEpsilon
        = 1 - (along + extent / 2) / max extent gradientEpsilon := by
    have hne : extent ≠ 0 := (gradientEpsilon_pos.trans_le hextent).ne'
    rw [max_eq_left hextent]
    field_simp
    ring
  have halong (length : ℝ) : (v.x * -dir.x + v.y * -dir.y) / length
      = -((v.x * dir.x + v.y * dir.y) / length) := by
    rw [← neg_div]
    ring
  unfold axisAlong
  dsimp only
  rw [habs, habs, hlength, halong]
  split
  · exact hends hwidth
  · exact hends hheight

/-! ## The mixing parameter -/

def Point.moved {α : Type} [Scalar α] (p d : Point α) : Point α := ⟨p.x + d.x, p.y + d.y⟩

def Bounds.moved {α : Type} [Scalar α] (b : Bounds α) (d : Point α) : Bounds α :=
  ⟨b.origin.moved d, b.size⟩

theorem gradientParameter_moved (angle first last : ℝ) (d p : Point ℝ) (b : Bounds ℝ) :
    gradientParameter angle first last (p.moved d) (b.moved d)
      = gradientParameter angle first last p b := by
  have hcenter : (p.moved d).sub (b.moved d).center = p.sub b.center := by
    simp only [Point.sub, Point.moved, Bounds.moved, Bounds.center, Point.mk.injEq]
    constructor <;> ring
  unfold gradientParameter
  rw [gradientAxis_eq, gradientAxis_eq, hcenter]
  rfl

theorem gradientParameter_add_turns (angle first last : ℝ) (turns : ℤ) (p : Point ℝ)
    (b : Bounds ℝ) : gradientParameter (angle + 360 * turns) first last p b
      = gradientParameter angle first last p b := by
  unfold gradientParameter
  rw [gradientAxis_eq, gradientAxis_eq, gradientDirection_add_turns]

theorem gradientParameter_neg (angle first last : ℝ) (p : Point ℝ) (b : Bounds ℝ) :
    gradientParameter (-angle) first last (p.flipX b.center.x) b
      = gradientParameter angle first last p b := by
  have hcenter : (p.flipX b.center.x).sub b.center
      = ⟨-(p.sub b.center).x, (p.sub b.center).y⟩ := by
    simp only [Point.sub, Point.flipX, Point.mk.injEq, and_true]
    ring
  unfold gradientParameter
  rw [gradientAxis_eq, gradientAxis_eq, gradientDirection_neg, hcenter, axisAlong_mirror]

/-- From the other end, the distance of the stops is the same and what was passed is still to
come. -/
theorem gradientParameter_opposite {b : Bounds ℝ} (hwidth : gradientEpsilon ≤ b.size.width)
    (hheight : gradientEpsilon ≤ b.size.height) {first last : ℝ}
    (hspan : gradientEpsilon ≤ |last - first|) (angle : ℝ) (p : Point ℝ) :
    gradientParameter (angle + 180) (1 - last) (1 - first) p b
      = 1 - gradientParameter angle first last p b := by
  have hne : last - first ≠ 0 := abs_pos.mp (gradientEpsilon_pos.trans_le hspan)
  have hspan_eq {x y : ℝ} (h : y - x = last - first) : gradientSpan x y = last - first := by
    unfold gradientSpan
    dsimp only
    rw [h]
    exact if_neg (not_lt.mpr hspan)
  have hrest (axis : ℝ) : (1 - axis - (1 - last)) / (last - first)
      = 1 - (axis - first) / (last - first) := by
    field_simp
    ring
  unfold gradientParameter
  rw [hspan_eq (by ring), hspan_eq rfl, gradientAxis_eq, gradientAxis_eq,
    gradientDirection_add_half_turn, axisAlong_neg hwidth hheight, hrest, saturate_one_sub]

/-! ## Gradients -/

/-- A gradient described from its other end. -/
def PreparedGradient.opposite {α : Type} [Scalar α] (g : PreparedGradient α) :
    PreparedGradient α :=
  ⟨g.angle + 180, g.lastColor, g.firstColor, 1 - g.lastPosition, 1 - g.firstPosition, g.space⟩

def LinearGradient.opposite {α : Type} [Scalar α] (g : LinearGradient α) : LinearGradient α :=
  ⟨g.angle + 180, ⟨g.last.color, 1 - g.last.position⟩, ⟨g.first.color, 1 - g.first.position⟩,
    g.space⟩

section
variable {b : Bounds ℝ} (hwidth : gradientEpsilon ≤ b.size.width)
  (hheight : gradientEpsilon ≤ b.size.height)
include hwidth hheight

theorem colorAt_opposite {g : PreparedGradient ℝ}
    (hspan : gradientEpsilon ≤ |g.lastPosition - g.firstPosition|) (p : Point ℝ) :
    (PreparedFill.linear g.opposite).colorAt p b = (PreparedFill.linear g).colorAt p b := by
  show g.space.leave (g.lastColor.lerp g.firstColor
    (gradientParameter (g.angle + 180) (1 - g.lastPosition) (1 - g.firstPosition) p b)) = _
  rw [gradientParameter_opposite hwidth hheight hspan, Rgba.lerp_one_sub]
  rfl

/-- In a rectangle that is not too small, the mixing parameter of a gradient does not change when
point and rectangle are moved together, when the angle gets any number of full turns, or when the
point is reflected in the vertical centre line and the angle negated. And if its stops are not too
close, a gradient has the same colours in all spaces when it is described from the other end:
turned by half, with the stops exchanged and their places counted from there. -/
theorem gradient_symmetric :
    (∀ (angle first last : ℝ) (p : Point ℝ),
      (∀ d, gradientParameter angle first last (p.moved d) (b.moved d)
          = gradientParameter angle first last p b)
        ∧ (∀ turns : ℤ, gradientParameter (angle + 360 * turns) first last p b
          = gradientParameter angle first last p b)
        ∧ gradientParameter (-angle) first last (p.flipX b.center.x) b
          = gradientParameter angle first last p b)
      ∧ (∀ g : PreparedGradient ℝ, gradientEpsilon ≤ |g.lastPosition - g.firstPosition| →
        ∀ p, (PreparedFill.linear g.opposite).colorAt p b = (PreparedFill.linear g).colorAt p b)
      ∧ ∀ g : LinearGradient ℝ, gradientEpsilon ≤ |g.last.position - g.first.position| →
        ∀ p, (Fill.linear g.opposite).prepare.colorAt p b
          = (Fill.linear g).prepare.colorAt p b := by
  refine ⟨fun angle first last p => ⟨fun d => gradientParameter_moved angle first last d p b,
      fun turns => gradientParameter_add_turns angle first last turns p b,
      gradientParameter_neg angle first last p b⟩,
    fun g hspan => colorAt_opposite hwidth hheight hspan, fun g hspan p => ?_⟩
  exact colorAt_opposite hwidth hheight
    (g := ⟨g.angle, g.space.enter g.first.color.toLinear, g.space.enter g.last.color.toLinear,
      g.first.position, g.last.position, g.space⟩) hspan p

end

/-- A gradient to the upper left in a rectangle that is wider than high: moved, after three turns
back, mirrored, and from its other end. -/
theorem gradient_symmetric_wide :
    let b : Bounds ℝ := .of 1 2 4 2
    let red : Hsla ℝ := ⟨0, 1, 1 / 2, 1⟩
    let blue : Hsla ℝ := ⟨2 / 3, 1, 1 / 2, 1 / 2⟩
    let g : LinearGradient ℝ := ⟨-30, ⟨red, 1 / 4⟩, ⟨blue, 3 / 4⟩, .oklab⟩
    let parameter (angle : ℝ) := gradientParameter angle (1 / 4) (3 / 4)
    (gradientEpsilon ≤ b.size.width ∧ gradientEpsilon ≤ b.size.height
        ∧ gradientEpsilon ≤ |g.last.position - g.first.position|)
      ∧ parameter (-30) ⟨12, 23⟩ (.of 11 22 4 2) = parameter (-30) ⟨2, 3⟩ b
      ∧ parameter (-1110) ⟨2, 3⟩ b = parameter (-30) ⟨2, 3⟩ b
      ∧ parameter 30 ⟨4, 3⟩ b = parameter (-30) ⟨2, 3⟩ b
      ∧ (Fill.linear ⟨150, ⟨blue, 1 / 4⟩, ⟨red, 3 / 4⟩, .oklab⟩).prepare.colorAt ⟨2, 3⟩ b
        = (Fill.linear g).prepare.colorAt ⟨2, 3⟩ b := by
  intro b red blue g parameter
  have hwidth : gradientEpsilon ≤ b.size.width := by
    show (1e-6 : ℝ) ≤ 4
    norm_num
  have hheight : gradientEpsilon ≤ b.size.height := by
    show (1e-6 : ℝ) ≤ 2
    norm_num
  have hspan : gradientEpsilon ≤ |g.last.position - g.first.position| := by
    show (1e-6 : ℝ) ≤ |3 / 4 - 1 / 4|
    norm_num
  obtain ⟨hparameter, -, hopposite⟩ := gradient_symmetric hwidth hheight
  obtain ⟨hmoved, hturns, hmirror⟩ := hparameter (-30) (1 / 4) (3 / 4) ⟨2, 3⟩
  refine ⟨⟨hwidth, hheight, hspan⟩, ?_, ?_, ?_, ?_⟩
  · have hbounds : b.moved ⟨10, 20⟩ = .of 11 22 4 2 := by
      norm_num [b, Bounds.moved, Bounds.of, Point.moved]
    have hpoint : Point.moved ⟨2, 3⟩ ⟨10, 20⟩ = (⟨12, 23⟩ : Point ℝ) := by
      norm_num [Point.moved]
    have htogether := hmoved ⟨10, 20⟩
    rwa [hbounds, hpoint] at htogether
  · have hangle : (-30 : ℝ) + 360 * (-3 : ℤ) = -1110 := by norm_num
    have hback := hturns (-3)
    rwa [hangle] at hback
  · have hplace : Point.flipX b.center.x ⟨2, 3⟩ = (⟨4, 3⟩ : Point ℝ) := by
      norm_num [b, Bounds.of, Bounds.center, Point.flipX]
    rwa [hplace, neg_neg] at hmirror
  · have hother : g.opposite = ⟨150, ⟨blue, 1 / 4⟩, ⟨red, 3 / 4⟩, .oklab⟩ := by
      norm_num [g, LinearGradient.opposite]
    rw [← hother]
    exact hopposite g hspan ⟨2, 3⟩

end Raster
