import Raster.Proofs.OuterRamp
import Raster.Proofs.ShadowSymmetry

/-!
# Quads are symmetric

A quad that is flipped left to right, flipped upside down or transposed is
drawn as before, in the place where it has been moved (`Quad.shade_symmetric`).
Radii and borders move with their corners and sides; there are no conditions
on them.

A quadrant is seen from its corner, so a flip leaves nothing to compare: the
flipped point sees the same corner (`Quad.corner_flipX`). Only a point on the
centre line is sent to the other side of it without a change of sign, and finds
other radii and borders there. Transposing exchanges the two axes of the
corner, and no distance tells them apart (`QuadCorner.inner_transpose`).
Turning upside down is transposing, flipping and transposing again, and
follows from the two.
-/

namespace Raster

/-! ## Flips and transposes -/

section
variable {α : Type} [Scalar α]

namespace Point

/-- The image in the vertical line at `axis`. -/
def flipX (axis : α) (p : Point α) : Point α := ⟨2 * axis - p.x, p.y⟩

/-- The image in the horizontal line at `axis`. -/
def flipY (axis : α) (p : Point α) : Point α := ⟨p.x, 2 * axis - p.y⟩

/-- The image in the diagonal. -/
def transpose (p : Point α) : Point α := ⟨p.y, p.x⟩

end Point

namespace Bounds

def flipX (axis : α) (b : Bounds α) : Bounds α :=
  ⟨⟨2 * axis - (b.origin.x + b.size.width), b.origin.y⟩, b.size⟩

def flipY (axis : α) (b : Bounds α) : Bounds α :=
  ⟨⟨b.origin.x, 2 * axis - (b.origin.y + b.size.height)⟩, b.size⟩

def transpose (b : Bounds α) : Bounds α := ⟨b.origin.transpose, ⟨b.size.height, b.size.width⟩⟩

end Bounds

namespace Corners

def flipX (radii : Corners α) : Corners α :=
  ⟨radii.topRight, radii.topLeft, radii.bottomLeft, radii.bottomRight⟩

def flipY (radii : Corners α) : Corners α :=
  ⟨radii.bottomLeft, radii.bottomRight, radii.topRight, radii.topLeft⟩

def transpose (radii : Corners α) : Corners α :=
  ⟨radii.topLeft, radii.bottomLeft, radii.bottomRight, radii.topRight⟩

end Corners

namespace Edges

def flipX (widths : Edges α) : Edges α := ⟨widths.top, widths.left, widths.bottom, widths.right⟩

def flipY (widths : Edges α) : Edges α := ⟨widths.bottom, widths.right, widths.top, widths.left⟩

def transpose (widths : Edges α) : Edges α :=
  ⟨widths.left, widths.bottom, widths.right, widths.top⟩

end Edges

namespace Quad

/-- Left and right exchanged, about the vertical line at `axis`. -/
def flipX (axis : α) (q : Quad α) : Quad α :=
  { q with
    contentMask := q.contentMask.flipX axis
    bounds := q.bounds.flipX axis
    cornerRadii := q.cornerRadii.flipX
    borderWidths := q.borderWidths.flipX }

/-- Top and bottom exchanged, about the horizontal line at `axis`. -/
def flipY (axis : α) (q : Quad α) : Quad α :=
  { q with
    contentMask := q.contentMask.flipY axis
    bounds := q.bounds.flipY axis
    cornerRadii := q.cornerRadii.flipY
    borderWidths := q.borderWidths.flipY }

/-- The two axes exchanged. -/
def transpose (q : Quad α) : Quad α :=
  { q with
    contentMask := q.contentMask.transpose
    bounds := q.bounds.transpose
    cornerRadii := q.cornerRadii.transpose
    borderWidths := q.borderWidths.transpose }

theorem isPlain_flipX (axis : α) (q : Quad α) : (q.flipX axis).isPlain = q.isPlain := by
  unfold isPlain flipX Corners.flipX Edges.flipX
  dsimp only
  ac_rfl

theorem isPlain_transpose (q : Quad α) : q.transpose.isPlain = q.isPlain := by
  unfold isPlain transpose Corners.transpose Edges.transpose
  dsimp only
  ac_rfl

end Quad

end

namespace Bounds

theorem center_flipX (axis : ℝ) (b : Bounds ℝ) : (b.flipX axis).center = b.center.flipX axis := by
  simp only [center, flipX, Point.flipX, Point.mk.injEq, and_true]
  ring

theorem clips_flipX (axis : ℝ) (b : Bounds ℝ) (p : Point ℝ) :
    (b.flipX axis).clips (p.flipX axis) = b.clips p := by
  rw [Bool.eq_iff_iff, clips_iff, clips_iff]
  refine or_congr_left ?_
  show 2 * axis - p.x < 2 * axis - (b.origin.x + b.size.width) ∨
    2 * axis - (b.origin.x + b.size.width) + b.size.width < 2 * axis - p.x ↔ _
  rw [or_comm]
  refine or_congr ?_ ?_
  · constructor <;> intro h <;> linarith
  · constructor <;> intro h <;> linarith

theorem clips_transpose (b : Bounds ℝ) (p : Point ℝ) :
    b.transpose.clips p.transpose = b.clips p := by
  rw [Bool.eq_iff_iff, clips_iff, clips_iff]
  exact or_comm

end Bounds

namespace Corners

/-- A vector that points neither left nor right has no mirror image in the other quadrant. -/
theorem radiusAt_flipX (radii : Corners ℝ) {v : Point ℝ} (hv : v.x ≠ 0) :
    radii.flipX.radiusAt ⟨-v.x, v.y⟩ = radii.radiusAt v := by
  unfold radiusAt
  rcases lt_or_gt_of_ne hv with hleft | hright
  · have himage : ¬ -v.x < 0 := by linarith
    rw [if_pos hleft, if_neg himage]
    rfl
  · have himage : -v.x < 0 := by linarith
    rw [if_neg hright.not_gt, if_pos himage]
    rfl

theorem radiusAt_transpose (radii : Corners ℝ) (v : Point ℝ) :
    radii.transpose.radiusAt v.transpose = radii.radiusAt v := by
  show (if v.y < 0 then if v.x < 0 then radii.topLeft else radii.topRight
    else if v.x < 0 then radii.bottomLeft else radii.bottomRight) = _
  unfold radiusAt
  split_ifs <;> rfl

end Corners

/-! ## Transposed corners -/

theorem cornerDistance_transpose (p : Point ℝ) (radius : ℝ) :
    cornerDistance p.transpose radius = cornerDistance p radius := by
  have hhypot : Scalar.hypot (max 0 p.y) (max 0 p.x) = Scalar.hypot (max 0 p.x) (max 0 p.y) :=
    congrArg Real.sqrt (add_comm ..)
  unfold cornerDistance Point.transpose
  dsimp only
  rw [hhypot, max_comm p.y]

theorem ellipseDistance_transpose (p radii : Point ℝ) :
    ellipseDistance p.transpose radii.transpose = ellipseDistance p radii := by
  have hhypot (x y : ℝ) : Scalar.hypot y x = Scalar.hypot x y := congrArg Real.sqrt (add_comm ..)
  unfold ellipseDistance Point.transpose
  dsimp only
  rw [hhypot (p.x / max radii.x minEllipseRadius),
    add_comm (max radii.y minEllipseRadius)]

namespace QuadCorner

def transpose (c : QuadCorner ℝ) : QuadCorner ℝ :=
  ⟨c.radius, c.border.transpose, c.fromCorner.transpose⟩

variable (c : QuadCorner ℝ)

theorem isInterior_transpose : c.transpose.isInterior = c.isInterior := by
  rw [Bool.eq_iff_iff, isInterior_iff, isInterior_iff]
  exact and_congr and_comm or_comm

theorem outer_transpose : c.transpose.outer = c.outer :=
  cornerDistance_transpose c.fromCircle c.radius

/-- All cases of the inside edge of the border treat the two axes alike. -/
theorem inner_transpose : c.transpose.inner = c.inner := by
  have hcorner : (if c.border.y == c.border.x then -(c.transpose.outer + c.border.y)
      else ellipseDistance c.fromCircle.transpose
        (Point.mk (max 0 (c.radius - c.border.x)) (max 0 (c.radius - c.border.y))).transpose)
      = if c.border.x == c.border.y then -(c.outer + c.border.x)
        else ellipseDistance c.fromCircle
          ⟨max 0 (c.radius - c.border.x), max 0 (c.radius - c.border.y)⟩ := by
    rw [outer_transpose, ellipseDistance_transpose]
    simp only [Scalar.beq_iff_eq]
    by_cases hequal : c.border.x = c.border.y
    · rw [if_pos hequal.symm, if_pos hequal, hequal]
    · rw [if_neg (Ne.symm hequal), if_neg hequal]
  exact if_congr or_comm (congrArg Neg.neg (max_comm ..)) (if_congr or_comm rfl hcorner)

theorem colorByDistance_transpose (fill border : Rgba ℝ) (premultiplied : Bool) :
    c.transpose.colorByDistance fill border premultiplied
      = c.colorByDistance fill border premultiplied := by
  unfold colorByDistance mixBorder
  rw [inner_transpose, outer_transpose]

end QuadCorner

/-! ## The corner of the moved point -/

namespace Quad

variable (q : Quad ℝ)

/-- Off the centre line, the flipped point sees the same corner. -/
theorem corner_flipX (axis : ℝ) {p : Point ℝ} (hp : p.x ≠ q.bounds.center.x) :
    (q.flipX axis).corner (p.flipX axis) = q.corner p := by
  have hside : (p.sub q.bounds.center).x ≠ 0 := sub_ne_zero.mpr hp
  have hcenter : (p.flipX axis).sub (q.flipX axis).bounds.center
      = ⟨-(p.sub q.bounds.center).x, (p.sub q.bounds.center).y⟩ := by
    show (p.flipX axis).sub (q.bounds.flipX axis).center = _
    rw [Bounds.center_flipX]
    simp only [Point.sub, Point.flipX, Point.mk.injEq, and_true]
    ring
  have hborder (width width' : ℝ) : (if -(p.sub q.bounds.center).x < 0 then width' else width)
      = if (p.sub q.bounds.center).x < 0 then width else width' := by
    rcases lt_or_gt_of_ne hside with hleft | hright
    · rw [if_neg (by linarith), if_pos hleft]
    · rw [if_pos (by linarith), if_neg hright.not_gt]
  unfold corner
  rw [hcenter]
  simp only [flipX, Edges.flipX, q.cornerRadii.radiusAt_flipX hside, hborder]
  exact congrArg (QuadCorner.mk _ _) (q.bounds.beyondCorner_neg_x _)

theorem corner_transpose (p : Point ℝ) :
    q.transpose.corner p.transpose = (q.corner p).transpose := by
  have hcenter : p.transpose.sub q.transpose.bounds.center = (p.sub q.bounds.center).transpose :=
    rfl
  unfold corner
  rw [hcenter]
  exact congrArg (QuadCorner.mk · _ _) (q.cornerRadii.radiusAt_transpose _)

variable {q} {color : Hsla ℝ} (hfill : q.fill = .solid color) (hplain : q.isPlain = false)
include hfill hplain

/-- What a quad of one colour shows is told by its mask and by the corner that is seen. -/
theorem shade_of_solid (p : Point ℝ) (ctx : FrameContext ℝ) :
    q.shade p ctx = if q.contentMask.clips p then Rgba.transparent
      else if (q.corner p).isInterior then color.toLinear.fade 1 ctx.premultipliedAlpha
      else (q.corner p).colorByDistance color.toLinear q.borderColor.toLinear
        ctx.premultipliedAlpha := by
  unfold shade evaluate project
  rw [hfill, hplain]
  rfl

theorem shade_flipX (axis : ℝ) {p : Point ℝ} (hp : p.x ≠ q.bounds.center.x)
    (ctx : FrameContext ℝ) : (q.flipX axis).shade (p.flipX axis) ctx = q.shade p ctx := by
  have hclips : (q.flipX axis).contentMask.clips (p.flipX axis) = q.contentMask.clips p :=
    q.contentMask.clips_flipX axis p
  have hfill' : (q.flipX axis).fill = .solid color := hfill
  rw [shade_of_solid hfill' ((q.isPlain_flipX axis).trans hplain), shade_of_solid hfill hplain,
    hclips, q.corner_flipX axis hp]
  rfl

theorem shade_transpose (p : Point ℝ) (ctx : FrameContext ℝ) :
    q.transpose.shade p.transpose ctx = q.shade p ctx := by
  have hclips : q.transpose.contentMask.clips p.transpose = q.contentMask.clips p :=
    q.contentMask.clips_transpose p
  have hfill' : q.transpose.fill = .solid color := hfill
  rw [shade_of_solid hfill' (q.isPlain_transpose.trans hplain), shade_of_solid hfill hplain,
    hclips, q.corner_transpose, QuadCorner.isInterior_transpose,
    QuadCorner.colorByDistance_transpose]
  rfl

/-- Flipping left to right, flipping upside down and transposing change the place of a quad of one
colour that is not plain, and nothing else. Left out are the points on the centre line that a flip
exchanges the sides of. -/
theorem shade_symmetric (p : Point ℝ) (ctx : FrameContext ℝ) :
    (∀ axis, p.x ≠ q.bounds.center.x →
        (q.flipX axis).shade (p.flipX axis) ctx = q.shade p ctx)
      ∧ (∀ axis, p.y ≠ q.bounds.center.y →
        (q.flipY axis).shade (p.flipY axis) ctx = q.shade p ctx)
      ∧ q.transpose.shade p.transpose ctx = q.shade p ctx := by
  refine ⟨fun axis hp => shade_flipX hfill hplain axis hp ctx, fun axis hp => ?_,
    shade_transpose hfill hplain p ctx⟩
  have hplain' : q.transpose.isPlain = false := q.isPlain_transpose.trans hplain
  have hfill' : q.transpose.fill = .solid color := hfill
  calc (q.flipY axis).shade (p.flipY axis) ctx
      = (q.transpose.flipX axis).transpose.shade (p.transpose.flipX axis).transpose ctx := rfl
    _ = (q.transpose.flipX axis).shade (p.transpose.flipX axis) ctx :=
        shade_transpose (q := q.transpose.flipX axis) hfill'
          ((q.transpose.isPlain_flipX axis).trans hplain') _ ctx
    _ = q.transpose.shade p.transpose ctx := shade_flipX hfill' hplain' axis hp ctx
    _ = q.shade p ctx := shade_transpose hfill hplain p ctx

omit hfill hplain in
/-- A quad whose four radii and four borders are all different. -/
theorem shade_symmetric_uneven :
    let uneven (size : Size ℝ) (radii : Corners ℝ) (widths : Edges ℝ) : Quad ℝ :=
      ⟨⟨0, ⟨⟨0, 0⟩, size⟩, ⟨⟨0, 0⟩, size⟩⟩, .solid ⟨0, 1, 0.5, 1⟩, ⟨0, 0, 0, 1⟩, radii, widths⟩
    let q := uneven ⟨40, 20⟩ ⟨5, 6, 7, 8⟩ ⟨1, 2, 3, 4⟩
    let p : Point ℝ := ⟨3, 5⟩
    let ctx : FrameContext ℝ := ⟨⟨40, 40⟩, false, 4, false, none⟩
    q.fill = .solid ⟨0, 1, 0.5, 1⟩ ∧ q.isPlain = false
      ∧ p.x ≠ q.bounds.center.x ∧ p.y ≠ q.bounds.center.y
      ∧ (uneven ⟨40, 20⟩ ⟨6, 5, 8, 7⟩ ⟨1, 4, 3, 2⟩).shade ⟨37, 5⟩ ctx = q.shade p ctx
      ∧ (uneven ⟨40, 20⟩ ⟨8, 7, 6, 5⟩ ⟨3, 2, 1, 4⟩).shade ⟨3, 15⟩ ctx = q.shade p ctx
      ∧ (uneven ⟨20, 40⟩ ⟨5, 8, 7, 6⟩ ⟨4, 3, 2, 1⟩).shade ⟨5, 3⟩ ctx = q.shade p ctx := by
  intro uneven q p ctx
  have hplain : q.isPlain = false := by
    have hradius : ((5 : ℝ) == 0) = false := decide_eq_false (by norm_num)
    simp only [q, uneven, isPlain, hradius, Bool.false_and]
  have hx : p.x ≠ q.bounds.center.x := by norm_num [p, q, uneven, Bounds.center]
  have hy : p.y ≠ q.bounds.center.y := by norm_num [p, q, uneven, Bounds.center]
  have hflipX : q.flipX 20 = uneven ⟨40, 20⟩ ⟨6, 5, 8, 7⟩ ⟨1, 4, 3, 2⟩
      ∧ p.flipX 20 = ⟨37, 5⟩ := by
    norm_num [q, p, uneven, flipX, Bounds.flipX, Corners.flipX, Edges.flipX, Point.flipX]
  have hflipY : q.flipY 10 = uneven ⟨40, 20⟩ ⟨8, 7, 6, 5⟩ ⟨3, 2, 1, 4⟩
      ∧ p.flipY 10 = ⟨3, 15⟩ := by
    norm_num [q, p, uneven, flipY, Bounds.flipY, Corners.flipY, Edges.flipY, Point.flipY]
  obtain ⟨hleftRight, htopBottom, hdiagonal⟩ := shade_symmetric (q := q) rfl hplain p ctx
  have hflippedX := hleftRight 20 hx
  have hflippedY := htopBottom 10 hy
  rw [hflipX.1, hflipX.2] at hflippedX
  rw [hflipY.1, hflipY.2] at hflippedY
  exact ⟨rfl, hplain, hx, hy, hflippedX, hflippedY, hdiagonal⟩

end Quad

end Raster
