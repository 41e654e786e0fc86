import Raster.Proofs.EmptyShapes
import Raster.Proofs.MissingBorder

/-!
# The outer ramp

By its distances a quad is seen up to half a pixel outside its outline,
where its outer ramp ends. It is drawn in its bounds, which are not widened
for the ramp. So a pixel that the ramp covers is drawn exactly if its centre
is in the bounds, and what is not drawn is in the outer half of the ramp,
less than half a pixel outside the bounds (`outer_ramp_drawn_in_bounds`).

The outline is never outside the sides of the bounds
(`QuadCorner.max_fromCorner_le_outer`), so whatever is inside the outline is
drawn. Along a straight side all of the outer half of the ramp is outside,
and whether there are pixel centres in it depends on where the side runs
between them. There are none if the bounds are `Bounds.Aligned`, as those of
whole pixels are.
-/

namespace Raster

/-! ## Sides and pixel centres -/

/-- No width is negative. -/
structure Edges.Nonneg (widths : Edges ℝ) : Prop where
  top : 0 ≤ widths.top
  right : 0 ≤ widths.right
  bottom : 0 ≤ widths.bottom
  left : 0 ≤ widths.left

/-- No pixel centre is outside a side by less than half a pixel. On the right and at the bottom a
centre on the side counts as outside. -/
structure Bounds.Aligned (b : Bounds ℝ) : Prop where
  left : Int.fract b.origin.x ≤ 1 / 2
  top : Int.fract b.origin.y ≤ 1 / 2
  right : Int.fract (b.origin.x + b.size.width) = 0 ∨
    1 / 2 < Int.fract (b.origin.x + b.size.width)
  bottom : Int.fract (b.origin.y + b.size.height) = 0 ∨
    1 / 2 < Int.fract (b.origin.y + b.size.height)

theorem le_center_of_fract {edge : ℝ} (hedge : Int.fract edge ≤ 1 / 2) {n : ℕ}
    (hn : edge - 1 / 2 < n + 1 / 2) : edge ≤ n + 1 / 2 := by
  have hsplit := Int.floor_add_fract edge
  have hnonneg := Int.fract_nonneg edge
  have hfloor : ⌊edge⌋ ≤ (n : ℤ) := by
    have hlt : (⌊edge⌋ : ℝ) < (n : ℤ) + 1 := by
      push_cast
      linarith
    exact Int.lt_add_one_iff.mp (by exact_mod_cast hlt)
  have hcast : (⌊edge⌋ : ℝ) ≤ n := by exact_mod_cast hfloor
  linarith

theorem center_lt_of_fract {edge : ℝ} (hedge : Int.fract edge = 0 ∨ 1 / 2 < Int.fract edge) {n : ℕ}
    (hn : (n : ℝ) + 1 / 2 < edge + 1 / 2) : (n : ℝ) + 1 / 2 < edge := by
  have hsplit := Int.floor_add_fract edge
  rcases hedge with hwhole | hbeyond
  · have hfloor : (n : ℤ) + 1 ≤ ⌊edge⌋ := by
      have hlt : ((n : ℤ) : ℝ) < ⌊edge⌋ := by
        push_cast
        linarith
      exact Int.add_one_le_of_lt (by exact_mod_cast hlt)
    have hcast : (n : ℝ) + 1 ≤ ⌊edge⌋ := by exact_mod_cast hfloor
    linarith
  · have hfloor : (n : ℤ) ≤ ⌊edge⌋ := Int.le_floor.mpr (by push_cast; linarith)
    have hcast : (n : ℝ) ≤ ⌊edge⌋ := by exact_mod_cast hfloor
    linarith

/-! ## Where a quad is seen -/

/-- A border leaves an opaque fill opaque, whatever the border's colour. -/
theorem QuadCorner.alpha_mixBorder_of_full (c : QuadCorner ℝ) {fill : Rgba ℝ} (h : fill.a = 1)
    (border : Rgba ℝ) : (c.mixBorder fill border).a = 1 := by
  unfold mixBorder
  split
  · show lerp fill.a (fill.coveredBy border).a _ = 1
    rw [Rgba.alpha_coveredBy_of_full_below h, h]
    show 1 + (1 - 1) * _ = (1 : ℝ)
    rw [sub_self, zero_mul, add_zero]
  · exact h

namespace Quad

variable {q : Quad ℝ} {p : Point ℝ} {ctx : FrameContext ℝ}

/-- The bounds, made larger or smaller on all sides. -/
theorem max_fromCorner_lt_iff (q : Quad ℝ) (p : Point ℝ) (k : ℝ) :
    max (q.corner p).fromCorner.x (q.corner p).fromCorner.y < k ↔
      (q.bounds.origin.x - k < p.x ∧ p.x < q.bounds.origin.x + q.bounds.size.width + k) ∧
        q.bounds.origin.y - k < p.y ∧ p.y < q.bounds.origin.y + q.bounds.size.height + k := by
  have hside (start extent v : ℝ) :
      |v - (start + extent / 2)| - extent / 2 < k ↔ start - k < v ∧ v < start + extent + k := by
    rw [sub_lt_iff_lt_add, abs_lt]
    constructor
    · rintro ⟨hlow, hhigh⟩
      constructor <;> linarith
    · rintro ⟨hlow, hhigh⟩
      constructor <;> linarith
  rw [max_lt_iff, ← hside, ← hside]
  rfl

theorem contains_of_max_fromCorner_neg
    (h : max (q.corner p).fromCorner.x (q.corner p).fromCorner.y < 0) :
    q.bounds.contains p = true := by
  obtain ⟨⟨hleft, hright⟩, htop, hbottom⟩ := (q.max_fromCorner_lt_iff p 0).mp h
  rw [Bounds.contains_iff]
  refine ⟨⟨?_, ?_⟩, ?_, ?_⟩ <;> linarith

/-- Interior points are inside the bounds. -/
theorem max_fromCorner_neg_of_interior (hborders : q.borderWidths.Nonneg)
    (h : (q.corner p).isInterior = true) :
    max (q.corner p).fromCorner.x (q.corner p).fromCorner.y < 0 := by
  have hborder {width : ℝ} (hwidth : 0 ≤ width) : -rampHalf ≤ effectiveBorder width := by
    unfold effectiveBorder
    split
    · exact le_refl _
    · rw [rampHalf_eq]
      linarith
  have hborderX : -rampHalf ≤ (q.corner p).border.x := by
    refine hborder ?_
    split
    · exact hborders.left
    · exact hborders.right
  have hborderY : -rampHalf ≤ (q.corner p).border.y := by
    refine hborder ?_
    split
    · exact hborders.top
    · exact hborders.bottom
  obtain ⟨⟨hx, hy⟩, -⟩ := QuadCorner.isInterior_iff.mp h
  unfold QuadCorner.fromInner at hx hy
  dsimp only at hx hy
  exact max_lt (by linarith) (by linarith)

/-- Outside the interior, a quad is covered by how far its outline is away. -/
theorem alpha_shade_of_not_interior (hmask : q.contentMask.clips p = false)
    (hplain : q.isPlain = false) (hinterior : (q.corner p).isInterior = false)
    (ctx : FrameContext ℝ) :
    (q.shade p ctx).a =
      ((q.corner p).mixBorder (q.fill.prepare.colorAt p q.bounds) q.borderColor.toLinear).a *
        saturate (rampHalf - (q.corner p).outer) := by
  rw [shade_of_not_interior hmask hplain hinterior]
  rfl

theorem not_clips_of_seen (hseen : 0 < (q.shade p ctx).a) : q.contentMask.clips p = false := by
  rw [Bool.eq_false_iff]
  intro hmask
  have htransparent : q.shade p ctx = Rgba.transparent := if_pos hmask
  rw [htransparent] at hseen
  exact lt_irrefl 0 hseen

/-- What is seen of a quad is in its interior or on this side of the outer end of the ramp. -/
theorem interior_or_outer_lt_of_seen (hplain : q.isPlain = false) (hseen : 0 < (q.shade p ctx).a) :
    (q.corner p).isInterior = true ∨ (q.corner p).outer < rampHalf := by
  by_contra hfar
  obtain ⟨hinterior, houter⟩ := not_or.mp hfar
  have halpha := alpha_shade_of_not_interior (not_clips_of_seen hseen) hplain
    (Bool.eq_false_iff.mpr hinterior) ctx
  rw [saturate_of_nonpos (sub_nonpos.mpr (not_lt.mp houter)), mul_zero] at halpha
  exact hseen.ne' halpha

section
variable (hplain : q.isPlain = false) (hborders : q.borderWidths.Nonneg)
  (hseen : 0 < (q.shade p ctx).a)
include hplain hborders hseen

/-- A quad is seen less than half a pixel outside its bounds. -/
theorem max_fromCorner_lt_of_seen :
    max (q.corner p).fromCorner.x (q.corner p).fromCorner.y < 1 / 2 := by
  rcases interior_or_outer_lt_of_seen hplain hseen with hinterior | houter
  · linarith [max_fromCorner_neg_of_interior hborders hinterior]
  · rw [rampHalf_eq] at houter
    exact (QuadCorner.max_fromCorner_le_outer _).trans_lt houter

/-- Outside its bounds a quad is seen in the outer half of the ramp only. -/
theorem outer_mem_of_seen_outside (houtside : q.bounds.contains p = false) :
    (q.corner p).outer ∈ Set.Ico (0 : ℝ) (1 / 2) := by
  have hfar : ¬ max (q.corner p).fromCorner.x (q.corner p).fromCorner.y < 0 := by
    intro hinside
    rw [contains_of_max_fromCorner_neg hinside] at houtside
    cases houtside
  refine ⟨(not_lt.mp hfar).trans (QuadCorner.max_fromCorner_le_outer _), ?_⟩
  rcases interior_or_outer_lt_of_seen hplain hseen with hinterior | houter
  · exact absurd (max_fromCorner_neg_of_interior hborders hinterior) hfar
  · rwa [rampHalf_eq] at houter

end

/-- In aligned bounds is every pixel centre that is less than half a pixel outside them. -/
theorem contains_center_of_aligned (haligned : q.bounds.Aligned) {column row : ℕ}
    (h : max (q.corner (pixelCenter (column, row))).fromCorner.x
      (q.corner (pixelCenter (column, row))).fromCorner.y < 1 / 2) :
    q.bounds.contains (pixelCenter (column, row)) = true := by
  rw [max_fromCorner_lt_iff, pixelCenter_eq] at h
  obtain ⟨⟨hleft, hright⟩, htop, hbottom⟩ := h
  rw [pixelCenter_eq, Bounds.contains_iff]
  exact ⟨⟨le_center_of_fract haligned.left hleft, center_lt_of_fract haligned.right hright⟩,
    le_center_of_fract haligned.top htop, center_lt_of_fract haligned.bottom hbottom⟩

/-- A quad that is not plain is drawn, of what is seen of it, where the pixel centre is in its
bounds, which are its raster bounds as they are. What is not drawn is part of the outer half of the
ramp, from the outline to half a pixel outside it: raster bounds wider by half a pixel would have
all of it. Nothing is missing if the sides of the bounds are aligned with the pixels. -/
theorem outer_ramp_drawn_in_bounds (hplain : q.isPlain = false)
    (hborders : q.borderWidths.Nonneg) (canvas : Canvas ℝ) {column row : ℕ}
    (hx : column < canvas.frame.width) (hy : row < canvas.frame.height)
    (hseen : 0 < (q.shade (pixelCenter (column, row)) ctx).a) :
    let p : Point ℝ := pixelCenter (column, row)
    let has (b : Bounds ℝ) : Bool := (b.span (Scalar.ofNat canvas.frame.width)
      (Scalar.ofNat canvas.frame.height)).has (column, row)
    (has (q.project ctx).rasterBounds = q.bounds.contains p)
      ∧ (canvas.draw ctx (.quad q)).frame.pixel column row
        = (if q.bounds.contains p then
            (q.shade p ctx).onto ctx.premultipliedAlpha (canvas.frame.pixel column row)
          else canvas.frame.pixel column row)
      ∧ (has (q.project ctx).rasterBounds = false → (q.corner p).outer ∈ Set.Ico (0 : ℝ) (1 / 2))
      ∧ has (q.bounds.expand (1 / 2) (1 / 2)) = true
      ∧ (q.bounds.Aligned → has (q.project ctx).rasterBounds = true) := by
  intro p has
  have hspan (b : Bounds ℝ) : has b = b.contains p :=
    Bool.eq_iff_iff.mpr (Bounds.span_has_iff_contains hx hy)
  have hnear := max_fromCorner_lt_of_seen hplain hborders hseen
  have hraster : (q.project ctx).rasterBounds = q.bounds := rfl
  rw [hraster, hspan, hspan]
  refine ⟨rfl, ?_, outer_mem_of_seen_outside hplain hborders hseen, ?_, ?_⟩
  · rw [Canvas.pixel_draw _ _ _ hx hy]
    show (if has q.bounds = true then _ else _) = _
    rw [hspan]
    rfl
  · obtain ⟨⟨hleft, hright⟩, htop, hbottom⟩ := (q.max_fromCorner_lt_iff p _).mp hnear
    rw [Bounds.contains_iff]
    unfold Bounds.expand
    refine ⟨⟨hleft.le, ?_⟩, htop.le, ?_⟩
    · dsimp only
      linarith
    · dsimp only
      linarith
  · intro haligned
    exact contains_center_of_aligned haligned hnear

/-! ## A square between pixels -/

/-- A red square with a black border, whose left side runs three quarters through a pixel. -/
def shiftedSquare {α : Type} [Scalar α] : Quad α :=
  ⟨⟨0, .of (-1000) (-1000) 2000 2000, .of (3 / 4) (-50) 100 100⟩, .solid ⟨0, 1, 0.5, 1⟩,
    ⟨0, 0, 0, 1⟩, ⟨8, 8, 8, 8⟩, ⟨2, 2, 2, 2⟩⟩

theorem isPlain_shiftedSquare : (shiftedSquare : Quad ℝ).isPlain = false := by
  have hradius : ((8 : ℝ) == 0) = false := decide_eq_false (by norm_num)
  unfold isPlain shiftedSquare
  simp only [hradius, Bool.false_and]

theorem firstCenter : pixelCenter (0, 0) = (⟨1 / 2, 1 / 2⟩ : Point ℝ) := by
  norm_num [pixelCenter_eq]

/-- The square seen from the centre of the first pixel, a quarter of a pixel to its left. -/
theorem corner_shiftedSquare :
    shiftedSquare.corner (pixelCenter (0, 0) : Point ℝ) = ⟨8, ⟨2, 2⟩, ⟨1 / 4, -(99 / 2)⟩⟩ := by
  have hcenter : (pixelCenter (0, 0) : Point ℝ).sub (shiftedSquare : Quad ℝ).bounds.center
      = ⟨-(201 / 4), 1 / 2⟩ := by
    norm_num [firstCenter, shiftedSquare, Bounds.of, Bounds.center, Point.sub]
  have hbeyond : (shiftedSquare : Quad ℝ).bounds.beyondCorner ⟨-(201 / 4), 1 / 2⟩
      = ⟨1 / 4, -(99 / 2)⟩ := by
    show (⟨|-(201 / 4)| - 100 / 2, |1 / 2| - 100 / 2⟩ : Point ℝ) = _
    rw [abs_neg, abs_of_pos (by norm_num), abs_of_pos (by norm_num), Point.mk.injEq]
    constructor <;> norm_num
  have hradius (v : Point ℝ) : (shiftedSquare : Quad ℝ).cornerRadii.radiusAt v = 8 :=
    Corners.radiusAt_of_eq rfl v
  have hborder : effectiveBorder (2 : ℝ) = 2 :=
    if_neg (by rw [Scalar.beq_iff_eq]; norm_num)
  unfold corner
  rw [hcenter]
  dsimp only
  rw [hbeyond, hradius]
  show QuadCorner.mk 8 ⟨effectiveBorder (if _ < _ then 2 else 2),
    effectiveBorder (if _ < _ then 2 else 2)⟩ _ = _
  rw [ite_self, ite_self, hborder]

theorem not_clips_shiftedSquare :
    (shiftedSquare : Quad ℝ).contentMask.clips (pixelCenter (0, 0)) = false := by
  rw [Bool.eq_false_iff, ne_eq, Bounds.clips_iff, firstCenter]
  norm_num [shiftedSquare, Bounds.of]

theorem alpha_shade_shiftedSquare (ctx : FrameContext ℝ) :
    (shiftedSquare.shade (pixelCenter (0, 0)) ctx).a = 1 / 4 := by
  have hinterior : (shiftedSquare.corner (pixelCenter (0, 0) : Point ℝ)).isInterior = false := by
    rw [corner_shiftedSquare, Bool.eq_false_iff, ne_eq, QuadCorner.isInterior_iff, rampHalf_eq]
    norm_num [QuadCorner.fromInner]
  have houter : (shiftedSquare.corner (pixelCenter (0, 0) : Point ℝ)).outer = 1 / 4 := by
    rw [corner_shiftedSquare,
      QuadCorner.outer_of_side (Or.inr (by norm_num [QuadCorner.fromCircle]))]
    norm_num
  have hcoverage : saturate (rampHalf - 1 / 4 : ℝ) = 1 / 4 := by
    rw [rampHalf_eq, saturate_eq_self (by norm_num) (by norm_num)]
    norm_num
  rw [alpha_shade_of_not_interior not_clips_shiftedSquare isPlain_shiftedSquare hinterior, houter,
    hcoverage, QuadCorner.alpha_mixBorder_of_full _ (Hsla.alpha_toLinear _), one_mul]

theorem nonneg_borderWidths_shiftedSquare : (shiftedSquare : Quad ℝ).borderWidths.Nonneg :=
  ⟨zero_le_two, zero_le_two, zero_le_two, zero_le_two⟩

theorem not_contains_shiftedSquare :
    (shiftedSquare : Quad ℝ).bounds.contains (pixelCenter (0, 0)) = false := by
  rw [Bool.eq_false_iff, ne_eq, Bounds.contains_iff, firstCenter]
  norm_num [shiftedSquare, Bounds.of]

/-- The square is seen at the centre of the first pixel, which its raster bounds do not have. -/
theorem outer_ramp_cut_off :
    let q : Quad ℝ := shiftedSquare
    let p : Point ℝ := pixelCenter (0, 0)
    let ctx : FrameContext ℝ := ⟨⟨1, 1⟩, true, 4, false, none⟩
    q.isPlain = false ∧ q.cornerRadii = ⟨8, 8, 8, 8⟩
      ∧ 8 ≤ min q.bounds.size.width q.bounds.size.height / 2 ∧ q.borderWidths = ⟨2, 2, 2, 2⟩
      ∧ q.contentMask.clips p = false ∧ (q.shade p ctx).a = 1 / 4
      ∧ ((q.project ctx).rasterBounds.span (Scalar.ofNat 1) (Scalar.ofNat 1)).has (0, 0)
        = false := by
  intro q p ctx
  refine ⟨isPlain_shiftedSquare, rfl, ?_, rfl, not_clips_shiftedSquare,
    alpha_shade_shiftedSquare ctx, ?_⟩
  · norm_num [q, shiftedSquare, Bounds.of]
  · rw [Bool.eq_false_iff, ne_eq, Bounds.span_has_iff_contains one_pos one_pos]
    exact Bool.eq_false_iff.mp not_contains_shiftedSquare

/-- The first pixel of a blank frame stays blank under the square, and raster bounds wider by half a
pixel would have it. -/
theorem outer_ramp_drawn_in_bounds_first_pixel :
    let q : Quad ℝ := shiftedSquare
    let ctx : FrameContext ℝ := ⟨⟨1, 1⟩, true, 4, false, none⟩
    let canvas : Canvas ℝ := ⟨Frame.blank 1 1, #[]⟩
    q.isPlain = false ∧ q.borderWidths.Nonneg ∧ 0 < (q.shade (pixelCenter (0, 0)) ctx).a
      ∧ (canvas.draw ctx (.quad q)).frame.pixel 0 0 = Rgba.transparent
      ∧ ((q.bounds.expand (1 / 2) (1 / 2)).span (Scalar.ofNat 1) (Scalar.ofNat 1)).has (0, 0)
        = true := by
  intro q ctx canvas
  have hseen : 0 < (q.shade (pixelCenter (0, 0)) ctx).a := by
    rw [alpha_shade_shiftedSquare]
    norm_num
  obtain ⟨-, hpixel, -, hexpanded, -⟩ := outer_ramp_drawn_in_bounds isPlain_shiftedSquare
    nonneg_borderWidths_shiftedSquare canvas one_pos one_pos hseen
  rw [not_contains_shiftedSquare] at hpixel
  exact ⟨isPlain_shiftedSquare, nonneg_borderWidths_shiftedSquare, hseen, hpixel, hexpanded⟩

end Quad

end Raster
