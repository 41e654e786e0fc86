import Raster.Scalar.Real
import Raster.Proofs.ColorRange
import Raster.Proofs.QuadInterior

/-!
# Missing borders

A border of width zero is taken to lie half a pixel outside its side, which
is to keep it out of sight. Half a pixel keeps it out of the shape: where
the distance to the outline is not positive, the distance to the inside
edge of the border is half a pixel or more
(`QuadCorner.inner_of_borderless`), and no border is mixed in.

The outer ramp reaches half a pixel further. In that outer half of the ramp
(`Quad.InOuterRamp`) the colour of the missing border is mixed over the
fill, by as much as the point is outside, and the mix is covered in part.
There, and nowhere else, the colour of a quad without borders depends on
its border colour (`Quad.missing_border_unseen_iff`). Beside a rounded
corner such points lie inside the bounds, so they are drawn.
-/

namespace Raster

/-- Beyond both sides of its circle, a rounded corner is at the distance of the circle. -/
theorem cornerDistance_of_round {p : Point ℝ} (hx : 0 < p.x) (hy : 0 < p.y) {radius : ℝ}
    (hradius : radius ≠ 0) :
    cornerDistance p radius = Real.sqrt (p.x * p.x + p.y * p.y) - radius := by
  unfold cornerDistance
  rw [if_neg fun h => hradius (Scalar.beq_iff_eq.mp h)]
  dsimp only
  rw [max_eq_right hx.le, max_eq_right hy.le, min_eq_left (hx.le.trans (le_max_left ..)), add_zero]
  rfl

theorem cornerDistance_of_square (p : Point ℝ) : cornerDistance p 0 = max p.x p.y :=
  if_pos (Scalar.beq_iff_eq.mpr rfl)

/-- The rounded outline is nowhere nearer than the sides of the corner. -/
theorem max_sub_le_cornerDistance (p : Point ℝ) (radius : ℝ) :
    max p.x p.y - radius ≤ cornerDistance p radius := by
  by_cases hside : p.x ≤ 0 ∨ p.y ≤ 0
  · exact (cornerDistance_of_side hside radius).ge
  · obtain ⟨hx, hy⟩ := not_or.mp hside
    rcases eq_or_ne radius 0 with rfl | hradius
    · rw [cornerDistance_of_square, sub_zero]
    · rw [cornerDistance_of_round (not_le.mp hx) (not_le.mp hy) hradius]
      refine sub_le_sub_right (max_le (Real.le_sqrt_of_sq_le ?_) (Real.le_sqrt_of_sq_le ?_)) radius
      · rw [sq]
        exact le_add_of_nonneg_right (mul_self_nonneg p.y)
      · rw [sq]
        exact le_add_of_nonneg_left (mul_self_nonneg p.x)

theorem lerp_right_injective {a b b' t : ℝ} (ht : t ≠ 0) (h : lerp a b t = lerp a b' t) :
    b = b' := by
  have hstep : (b - a) * t = (b' - a) * t := add_left_cancel h
  exact sub_left_inj.mp (mul_right_cancel₀ ht hstep)

namespace Rgba

/-- A fade that leaves something of a colour leaves its red channel to be told. -/
theorem red_eq_of_fade_eq {c c' : Rgba ℝ} {coverage : ℝ} (hempty : c.a ≠ 0)
    (hcoverage : coverage ≠ 0) {premultiplied : Bool}
    (h : c.fade coverage premultiplied = c'.fade coverage premultiplied) : c.r = c'.r := by
  have halpha : c.a * coverage = c'.a * coverage := congrArg Rgba.a h
  have hred := congrArg Rgba.r h
  simp only [fade, ← halpha] at hred
  cases premultiplied with
  | false => simpa using hred
  | true => exact mul_right_cancel₀ (mul_ne_zero hempty hcoverage) hred

theorem coveredBy_of_full (below : Rgba ℝ) {above : Rgba ℝ} (h : above.a = 1) :
    below.coveredBy above = above := by
  obtain ⟨r, g, b, a⟩ := above
  obtain rfl : a = 1 := h
  simp [coveredBy]

theorem alpha_coveredBy_of_empty (below : Rgba ℝ) {above : Rgba ℝ} (h : above.a = 0) :
    (below.coveredBy above).a = max below.a 0 := by
  simp only [coveredBy, h, sub_zero, mul_one, zero_add]
  split_ifs with hempty
  · exact (max_eq_right hempty).symm
  · exact (max_eq_left (not_le.mp hempty).le).symm

theorem alpha_coveredBy_of_full_below {below : Rgba ℝ} (h : below.a = 1) (above : Rgba ℝ) :
    (below.coveredBy above).a = 1 := by
  have halpha : above.a + below.a * (1 - above.a) = 1 := by
    rw [h]
    ring
  have hseen : ¬ above.a + below.a * (1 - above.a) ≤ 0 := by
    rw [halpha]
    exact not_le.mpr one_pos
  unfold coveredBy
  dsimp only
  rw [if_neg hseen]
  exact halpha

end Rgba

/-! ## Distances without borders -/

namespace QuadCorner

/-- Neither of the two sides that meet here has a border. -/
def Borderless (c : QuadCorner ℝ) : Prop := c.border = ⟨-rampHalf, -rampHalf⟩

variable {c : QuadCorner ℝ}

/-- The outline is nowhere outside the sides. -/
theorem max_fromCorner_le_outer (c : QuadCorner ℝ) :
    max c.fromCorner.x c.fromCorner.y ≤ c.outer := by
  have hnearer := max_sub_le_cornerDistance c.fromCircle c.radius
  rwa [max_fromCircle, add_sub_cancel_right] at hnearer

/-- Up to the outer end of the ramp, the inside edge of a missing border runs half a pixel outside
the outline. -/
theorem inner_of_borderless (hborder : c.Borderless) (houter : c.outer < rampHalf) :
    c.inner = rampHalf - c.outer := by
  have hinner : c.fromInner = ⟨c.fromCorner.x + -rampHalf, c.fromCorner.y + -rampHalf⟩ := by
    rw [fromInner, hborder]
  rw [inner, hinner]
  dsimp only
  by_cases hside : c.fromCircle.x ≤ 0 ∨ c.fromCircle.y ≤ 0
  · rw [if_pos hside, max_add_add_right, outer_of_side hside]
    ring
  · obtain ⟨hleft, htop⟩ := max_lt_iff.mp (c.max_fromCorner_le_outer.trans_lt houter)
    have hclear : ¬ (0 < c.fromCorner.x + -rampHalf ∨ 0 < c.fromCorner.y + -rampHalf) := by
      rintro (h | h) <;> linarith
    have hequal : (c.border.x == c.border.y) = true := by
      rw [hborder]
      exact decide_eq_true rfl
    rw [if_neg hside, if_neg hclear, if_pos hequal, hborder]
    ring

/-- A missing border is mixed in along the outer half of the ramp, by the distance to the outline,
and nowhere else. -/
theorem mixBorder_of_borderless (hborder : c.Borderless) (fill border : Rgba ℝ) :
    c.mixBorder fill border
      = if 0 < c.outer ∧ c.outer < rampHalf then fill.lerp (fill.coveredBy border) c.outer
        else fill := by
  rw [mixBorder]
  by_cases hinside : c.outer < rampHalf
  · rw [inner_of_borderless hborder hinside]
    by_cases houtside : 0 < c.outer
    · have hmixed : max (rampHalf - c.outer) c.outer < rampHalf :=
        max_lt (sub_lt_self _ houtside) hinside
      have hone : c.outer ≤ 1 := by
        rw [rampHalf_eq] at hinside
        linarith
      rw [if_pos hmixed, if_pos ⟨houtside, hinside⟩, sub_sub_cancel,
        saturate_eq_self houtside.le hone]
    · have hclear : ¬ max (rampHalf - c.outer) c.outer < rampHalf := by
        refine not_lt.mpr (le_trans ?_ (le_max_left ..))
        linarith [not_lt.mp houtside]
      rw [if_neg hclear, if_neg fun h => houtside h.1]
  · have hclear : ¬ max c.inner c.outer < rampHalf :=
      not_lt.mpr ((not_lt.mp hinside).trans (le_max_right ..))
    rw [if_neg hclear, if_neg fun h => hinside h.2]

end QuadCorner

namespace Quad

def withBorder {α : Type} (q : Quad α) (color : Hsla α) : Quad α := { q with borderColor := color }

/-- Whether a point is outside the rounded outline, by less than half a pixel. -/
def InOuterRamp (q : Quad ℝ) (p : Point ℝ) : Prop :=
  0 < (q.corner p).outer ∧ (q.corner p).outer < rampHalf

/-- The border colour enters by distance only. -/
theorem shade_withBorder (q : Quad ℝ) (color : Hsla ℝ) (p : Point ℝ) (ctx : FrameContext ℝ) :
    let fill := q.fill.prepare.colorAt p q.bounds
    (q.withBorder color).shade p ctx
      = if q.contentMask.clips p then Rgba.transparent
        else if q.isPlain then
          if q.bounds.contains p then fill.fade 1 ctx.premultipliedAlpha else Rgba.transparent
        else if (q.corner p).isInterior then fill.fade 1 ctx.premultipliedAlpha
        else ((q.corner p).mixBorder fill color.toLinear).fade
          (saturate (rampHalf - (q.corner p).outer)) ctx.premultipliedAlpha := rfl

section
variable {q : Quad ℝ} (hborder : q.borderWidths = ⟨0, 0, 0, 0⟩)
include hborder

theorem borderless_corner (p : Point ℝ) : (q.corner p).Borderless := by
  simp only [QuadCorner.Borderless, corner, hborder, ite_self, effectiveBorder_zero]

/-- No interior point is in the outer half of the ramp. -/
theorem not_isInterior_of_inOuterRamp {p : Point ℝ} (hramp : q.InOuterRamp p) :
    (q.corner p).isInterior = false := by
  rw [Bool.eq_false_iff]
  intro hinterior
  have hfar := QuadCorner.lt_inner_of_interior hinterior
  rw [QuadCorner.inner_of_borderless (borderless_corner hborder p) hramp.2] at hfar
  linarith [hramp.1]

/-- In the outer half of the ramp, the colour of a quad without borders. -/
theorem shade_of_inOuterRamp {p : Point ℝ} (hmask : q.contentMask.clips p = false)
    (hplain : q.isPlain = false) (hramp : q.InOuterRamp p) (color : Hsla ℝ)
    (ctx : FrameContext ℝ) :
    let fill := q.fill.prepare.colorAt p q.bounds
    (q.withBorder color).shade p ctx
      = (fill.lerp (fill.coveredBy color.toLinear) (q.corner p).outer).fade
          (rampHalf - (q.corner p).outer) ctx.premultipliedAlpha := by
  intro fill
  have hmix : (q.corner p).mixBorder fill color.toLinear
      = fill.lerp (fill.coveredBy color.toLinear) (q.corner p).outer :=
    (QuadCorner.mixBorder_of_borderless (borderless_corner hborder p) _ _).trans (if_pos hramp)
  have hcoverage : saturate (rampHalf - (q.corner p).outer) = rampHalf - (q.corner p).outer := by
    refine saturate_eq_self (sub_nonneg.mpr hramp.2.le) ?_
    rw [rampHalf_eq]
    linarith [hramp.1]
  rw [shade_withBorder, hmask, hplain, not_isInterior_of_inOuterRamp hborder hramp, hmix, hcoverage]
  rfl

/-- Elsewhere the border colour does not enter. -/
theorem shade_of_not_inOuterRamp {p : Point ℝ} (hramp : ¬ q.InOuterRamp p)
    (color color' : Hsla ℝ) (ctx : FrameContext ℝ) :
    (q.withBorder color).shade p ctx = (q.withBorder color').shade p ctx := by
  have hmix (fill border : Rgba ℝ) : (q.corner p).mixBorder fill border = fill :=
    (QuadCorner.mixBorder_of_borderless (borderless_corner hborder p) fill border).trans
      (if_neg hramp)
  rw [shade_withBorder, shade_withBorder, hmix, hmix]

end

/-! ## Border colours that are told apart -/

/-- Style colours without hue: gray of a lightness and an alpha. -/
def gray (l a : ℝ) : Hsla ℝ := ⟨0, 0, l, a⟩

theorem gray_inRange {l a : ℝ} (hl : l ∈ Set.Icc (0 : ℝ) 1) (ha : a ∈ Set.Icc (0 : ℝ) 1) :
    (gray l a).InRange :=
  ⟨unitInterval.zero_mem, hl, ha⟩

theorem red_toLinear_gray (l a : ℝ) : (gray l a).toLinear.r = decodeChannel l := by
  have hbase : (gray l a).base = l := by simp [gray, Hsla.base, Hsla.chroma]
  have hchroma : (gray l a).chroma = 0 := by simp [gray, Hsla.chroma]
  obtain ⟨hlow, hhigh⟩ := (Hsla.toSrgb_mem hchroma.ge).1
  rw [hchroma, add_zero, hbase] at hhigh
  rw [hbase] at hlow
  exact congrArg decodeChannel (le_antisymm hhigh hlow)

/-- Over a fill at full alpha, black and white are told apart when part of them is mixed in and part
of the mix is covered. -/
theorem fade_lerp_black_ne_white {fill : Rgba ℝ} (hfill : fill.a = 1) {weight coverage : ℝ}
    (hweight : weight ≠ 0) (hcoverage : coverage ≠ 0) (premultiplied : Bool) :
    (fill.lerp (fill.coveredBy (gray 0 1).toLinear) weight).fade coverage premultiplied
      ≠ (fill.lerp (fill.coveredBy (gray 1 1).toLinear) weight).fade coverage premultiplied := by
  intro h
  rw [fill.coveredBy_of_full (Hsla.alpha_toLinear _),
    fill.coveredBy_of_full (Hsla.alpha_toLinear _)] at h
  have halpha : (fill.lerp (gray 0 1).toLinear weight).a ≠ 0 := by
    show lerp fill.a (gray 0 1).toLinear.a weight ≠ 0
    rw [hfill, Hsla.alpha_toLinear]
    show (1 : ℝ) + (1 - 1) * weight ≠ 0
    norm_num
  have hred := lerp_right_injective hweight (Rgba.red_eq_of_fade_eq halpha hcoverage h)
  rw [red_toLinear_gray, red_toLinear_gray, decodeChannel_eq, decodeChannel_eq] at hred
  norm_num at hred

/-- Over any other fill, black with and without alpha are told apart. -/
theorem fade_lerp_clear_ne_black {fill : Rgba ℝ} (hfill : fill.a ≠ 1) {weight coverage : ℝ}
    (hweight : weight ≠ 0) (hcoverage : coverage ≠ 0) (premultiplied : Bool) :
    (fill.lerp (fill.coveredBy (gray 0 0).toLinear) weight).fade coverage premultiplied
      ≠ (fill.lerp (fill.coveredBy (gray 0 1).toLinear) weight).fade coverage premultiplied := by
  intro h
  have hfull : fill.coveredBy (gray 0 1).toLinear = (gray 0 1).toLinear :=
    fill.coveredBy_of_full (Hsla.alpha_toLinear _)
  have halpha := lerp_right_injective hweight
    (mul_right_cancel₀ hcoverage (congrArg Rgba.a h))
  rw [hfull, fill.alpha_coveredBy_of_empty (Hsla.alpha_toLinear _), Hsla.alpha_toLinear] at halpha
  rcases max_choice fill.a 0 with hmax | hmax
  · exact hfill (hmax.symm.trans halpha)
  · exact zero_ne_one (hmax.symm.trans halpha)

theorem exists_fade_lerp_ne (fill : Rgba ℝ) {weight coverage : ℝ} (hweight : weight ≠ 0)
    (hcoverage : coverage ≠ 0) (premultiplied : Bool) :
    ∃ c c' : Hsla ℝ, c.InRange ∧ c'.InRange
      ∧ (fill.lerp (fill.coveredBy c.toLinear) weight).fade coverage premultiplied
        ≠ (fill.lerp (fill.coveredBy c'.toLinear) weight).fade coverage premultiplied := by
  have hzero : (0 : ℝ) ∈ Set.Icc (0 : ℝ) 1 := unitInterval.zero_mem
  have hone : (1 : ℝ) ∈ Set.Icc (0 : ℝ) 1 := unitInterval.one_mem
  by_cases hfill : fill.a = 1
  · exact ⟨gray 0 1, gray 1 1, gray_inRange hzero hone, gray_inRange hone hone,
      fade_lerp_black_ne_white hfill hweight hcoverage premultiplied⟩
  · exact ⟨gray 0 0, gray 0 1, gray_inRange hzero hzero, gray_inRange hzero hone,
      fade_lerp_clear_ne_black hfill hweight hcoverage premultiplied⟩

/-! ## Where a missing border shows -/

/-- Without borders, the border colour of a quad does not enter outside the outer half of the ramp.
In it, the border colour is mixed over the fill by the distance to the outline, and whatever the
fill there are two border colours that are told apart. -/
theorem missing_border_unseen_iff {q : Quad ℝ} (hborder : q.borderWidths = ⟨0, 0, 0, 0⟩)
    (p : Point ℝ) (ctx : FrameContext ℝ) :
    ((∀ c c' : Hsla ℝ, (q.withBorder c).shade p ctx = (q.withBorder c').shade p ctx)
        ↔ q.contentMask.clips p = true ∨ q.isPlain = true ∨ ¬ q.InOuterRamp p)
      ∧ (q.contentMask.clips p = false → q.isPlain = false → q.InOuterRamp p →
        (∀ c : Hsla ℝ, (q.withBorder c).shade p ctx
            = ((q.fill.prepare.colorAt p q.bounds).lerp
                ((q.fill.prepare.colorAt p q.bounds).coveredBy c.toLinear) (q.corner p).outer).fade
              (rampHalf - (q.corner p).outer) ctx.premultipliedAlpha)
        ∧ ∃ c c' : Hsla ℝ, c.InRange ∧ c'.InRange
          ∧ (q.withBorder c).shade p ctx ≠ (q.withBorder c').shade p ctx) := by
  have hseen (hmask : q.contentMask.clips p = false) (hplain : q.isPlain = false)
      (hramp : q.InOuterRamp p) : ∃ c c' : Hsla ℝ, c.InRange ∧ c'.InRange
        ∧ (q.withBorder c).shade p ctx ≠ (q.withBorder c').shade p ctx := by
    have hshade := fun c => shade_of_inOuterRamp hborder hmask hplain hramp c ctx
    obtain ⟨c, c', hc, hc', hne⟩ := exists_fade_lerp_ne (q.fill.prepare.colorAt p q.bounds)
      hramp.1.ne' (sub_pos.mpr hramp.2).ne' ctx.premultipliedAlpha
    refine ⟨c, c', hc, hc', ?_⟩
    rw [hshade, hshade]
    exact hne
  refine ⟨⟨fun hunseen => ?_, fun hout c c' => ?_⟩, fun hmask hplain hramp => ⟨?_, ?_⟩⟩
  · by_contra hout
    obtain ⟨hmask, hplain, hramp⟩ : q.contentMask.clips p = false ∧ q.isPlain = false
        ∧ q.InOuterRamp p := by simpa using hout
    obtain ⟨c, c', -, -, hne⟩ := hseen hmask hplain hramp
    exact hne (hunseen c c')
  · rcases hout with hmask | hplain | hramp
    · rw [shade_withBorder, shade_withBorder, if_pos hmask, if_pos hmask]
    · rw [shade_withBorder, shade_withBorder, if_pos hplain, if_pos hplain]
    · exact shade_of_not_inOuterRamp hborder hramp c c' ctx
  · exact fun c => shade_of_inOuterRamp hborder hmask hplain hramp c ctx
  · exact hseen hmask hplain hramp

/-! ## A rounded square without a border -/

/-- The square seen from the points on a line through the centre of its upper left circle. -/
theorem outer_roundedSquare {k : ℝ} (hk : 0 < k) :
    (roundedSquare.corner ⟨8 - 3 / 5 * k, 8 - 4 / 5 * k⟩).outer = k - 8 := by
  have hcircle : (QuadCorner.mk (8 : ℝ) ⟨-rampHalf, -rampHalf⟩
      ⟨-(8 - 3 / 5 * k), -(8 - 4 / 5 * k)⟩).fromCircle = ⟨3 / 5 * k, 4 / 5 * k⟩ := by
    simp only [QuadCorner.fromCircle, Point.mk.injEq]
    constructor <;> ring
  have hx : 0 < 3 / 5 * k := by positivity
  have hy : 0 < 4 / 5 * k := by positivity
  have hradius : ¬ ((8 : ℝ) == 0) = true := fun h => by simpa using Scalar.beq_iff_eq.mp h
  have hhypot : Scalar.hypot (max 0 (3 / 5 * k)) (max 0 (4 / 5 * k)) = k := by
    show Real.sqrt _ = k
    rw [max_eq_right hx.le, max_eq_right hy.le]
    exact (Real.sqrt_eq_iff_mul_self_eq (by positivity) hk.le).mpr (by ring)
  rw [corner_roundedSquare_of_le (by linarith) (by linarith), QuadCorner.outer, hcircle,
    cornerDistance, if_neg hradius]
  dsimp only
  rw [hhypot, min_eq_left (hx.le.trans (le_max_left ..)), add_zero]

/-- Inside the outline of the square, in the ramp of a rounded corner, no border colour is seen. -/
theorem missing_border_unseen_iff_inside :
    let q : Quad ℝ := roundedSquare
    let p : Point ℝ := ⟨8 - 3 / 5 * 7.75, 8 - 4 / 5 * 7.75⟩
    let ctx : FrameContext ℝ := ⟨⟨100, 100⟩, true, 4, false, none⟩
    q.borderWidths = ⟨0, 0, 0, 0⟩
      ∧ ∀ c c' : Hsla ℝ, (q.withBorder c).shade p ctx = (q.withBorder c').shade p ctx := by
  intro q p ctx
  have houter : (q.corner p).outer = 7.75 - 8 := outer_roundedSquare (by norm_num)
  have hinside : ¬ q.InOuterRamp p := fun h => by
    have hpositive := h.1
    rw [houter] at hpositive
    norm_num at hpositive
  exact ⟨rfl, (missing_border_unseen_iff rfl p ctx).1.mpr (Or.inr (Or.inr hinside))⟩

/-- A quarter of a pixel outside the outline of a rounded corner, a square without borders is not
the same with a black and with a white border colour. -/
theorem missing_border_seen_beside_corner :
    let q : Quad ℝ := roundedSquare
    let p : Point ℝ := ⟨8 - 3 / 5 * 8.25, 8 - 4 / 5 * 8.25⟩
    let ctx : FrameContext ℝ := ⟨⟨100, 100⟩, false, 4, false, none⟩
    q.borderWidths = ⟨0, 0, 0, 0⟩ ∧ q.cornerRadii = ⟨8, 8, 8, 8⟩ ∧ q.bounds.contains p = true
      ∧ (q.withBorder ⟨0, 0, 0, 1⟩).shade p ctx ≠ (q.withBorder ⟨0, 0, 1, 1⟩).shade p ctx := by
  intro q p ctx
  have houter : (q.corner p).outer = 8.25 - 8 := outer_roundedSquare (by norm_num)
  have hramp : q.InOuterRamp p := by
    rw [InOuterRamp, houter, rampHalf_eq]
    norm_num
  have hmask : q.contentMask.clips p = false := by
    rw [Bool.eq_false_iff, ne_eq, Bounds.clips_iff]
    norm_num [q, p, roundedSquare, Bounds.of]
  have hcontains : q.bounds.contains p = true := by
    norm_num [q, p, roundedSquare, Bounds.of, Bounds.contains]
  have hshade := fun c => shade_of_inOuterRamp (q := q) rfl hmask isPlain_roundedSquare hramp c ctx
  refine ⟨rfl, rfl, hcontains, ?_⟩
  rw [hshade, hshade]
  exact fade_lerp_black_ne_white (Hsla.alpha_toLinear _) hramp.1.ne'
    (sub_pos.mpr hramp.2).ne' ctx.premultipliedAlpha

end Quad

end Raster
