import Raster.Scalar.Real
import Raster.Proofs.ColorRange
import Raster.Proofs.RasterBounds
import Raster.Proofs.ShadowBlur
import Raster.Proofs.SpriteTransformation

/-!
# Shapes without area

A shape without area leaves every pixel as it is, with few exceptions
(`empty_shapes_leave_no_trace`). The raster bounds of quads and polychrome
sprites contain no point. A blurred shadow takes away, if anything, and a
contribution of negative alpha is none (`Shadow.alpha_shade_nonpos`). A
monochrome sprite may have a hull with area nevertheless, but the pixels in
it are not mapped back into the sprite
(`MonochromeSprite.shade_of_not_onLine`).

The exceptions are the points of its raster bounds where an item may leave a
trace (`Item.Traces`). The wave of an underline without thickness is a
hairline, half covered along its middle, as its coverage is that of a wave
of thickness 0 whatever the thickness below. A shadow with a blur that is
too small to be computed is a plain rectangle, which covers half of a pixel
whose centre is on it, in raster bounds that the blur has made larger. And a
sprite without area is taken to have an extent of `minExtent`, which pixel
centres may lie in exactly, unless it stays upright
(`MonochromeSprite.Upright`).
-/

namespace Raster

/-! ## Contributions of no alpha -/

theorem Rgba.alpha_onto_transparent {c : Rgba ℝ} (hc : 0 < c.a) (premultiplied : Bool) :
    (c.onto premultiplied transparent).a = c.a := by
  rw [onto, if_neg hc.not_ge]
  show c.a + 0 * (1 - c.a) = c.a
  rw [zero_mul, add_zero]

theorem Item.layOn_of_alpha {item : Item ℝ} {ctx : FrameContext ℝ} {pixel : ℕ × ℕ}
    (h : ((item.paint ctx).colorAt (pixelCenter pixel)).a ≤ 0) (width height : ℕ)
    (below : Rgba ℝ) : item.layOn ctx width height pixel below = below := by
  rw [layOn]
  split
  · exact if_pos h
  · rfl

theorem Item.layOn_of_transparent {item : Item ℝ} {ctx : FrameContext ℝ} {pixel : ℕ × ℕ}
    (h : (item.paint ctx).colorAt (pixelCenter pixel) = Rgba.transparent) (width height : ℕ)
    (below : Rgba ℝ) : item.layOn ctx width height pixel below = below := by
  refine layOn_of_alpha ?_ width height below
  rw [h]
  exact le_refl 0

theorem Item.layOn_of_not_contains {item : Item ℝ} {ctx : FrameContext ℝ}
    {width height column row : ℕ} (hx : column < width) (hy : row < height)
    (h : (item.paint ctx).rasterBounds.contains (pixelCenter (column, row)) = false)
    (below : Rgba ℝ) : item.layOn ctx width height (column, row) below = below := by
  refine if_neg ?_
  rw [Bounds.span_has_iff_contains hx hy, h]
  exact Bool.false_ne_true

theorem Bounds.IsEmpty.not_contains {b : Bounds ℝ} (h : b.IsEmpty) (p : Point ℝ) :
    b.contains p = false := by
  rw [Bool.eq_false_iff, ne_eq, contains_iff]
  rintro ⟨⟨hleft, hright⟩, htop, hbottom⟩
  rcases h with hwidth | hheight <;> linarith

/-! ## Shadows -/

namespace Shadow

variable {s : Shadow ℝ}

theorem alpha_shade_nonpos (hempty : s.bounds.IsEmpty) (hradii : s.cornerRadii.Nonneg)
    (hblur : minBlurRadius ≤ s.blurRadius) (hcolor : 0 ≤ s.color.a) (p : Point ℝ)
    (ctx : FrameContext ℝ) : (s.shade p ctx).a ≤ 0 := by
  rw [shade, evaluate]
  split
  · exact le_refl 0
  · show s.color.toLinear.a * s.coverage p (Scalar.ofNat ctx.shadowSamples) ≤ 0
    rw [Hsla.alpha_toLinear]
    exact mul_nonpos_of_nonneg_of_nonpos hcolor (coverage_nonpos hradii hblur hempty p _)

/-- Without any blur the raster bounds are the bounds. -/
theorem rasterBounds_of_sharp (hblur : s.blurRadius = 0) (ctx : FrameContext ℝ) :
    (s.project ctx).rasterBounds = s.bounds := by
  have hmargin : blurExtent * max s.blurRadius 0 = 0 := by simp [hblur]
  show s.bounds.expand (blurExtent * max s.blurRadius 0) (blurExtent * max s.blurRadius 0)
    = s.bounds
  rw [hmargin]
  simp [Bounds.expand]

end Shadow

/-! ## Monochrome sprites -/

/-- Where a point would have to be to be taken for one of a rectangle without area: in a strip of
width `minExtent` from its left or top side on. -/
def Bounds.OnLine (b : Bounds ℝ) (p : Point ℝ) : Prop :=
  (b.size.width ≤ 0 → b.origin.x ≤ p.x ∧ p.x < b.origin.x + minExtent)
    ∧ (b.size.height ≤ 0 → b.origin.y ≤ p.y ∧ p.y < b.origin.y + minExtent)

theorem Bounds.onLine_of_inUnitSquare {b : Bounds ℝ} {p : Point ℝ}
    (h : (b.toUnit p).inUnitSquare = true) : b.OnLine p := by
  have hside {extent : ℝ} (hempty : extent ≤ 0) : max extent minExtent = minExtent :=
    max_eq_right (hempty.trans minExtent_pos.le)
  obtain ⟨hx, hy⟩ := inUnitSquare_toUnit_iff.mp h
  exact ⟨fun hwidth => hside hwidth ▸ hx, fun hheight => hside hheight ▸ hy⟩

namespace MonochromeSprite

variable {s : MonochromeSprite ℝ}

/-- Whether a point of the frame is mapped back onto a sprite without area. -/
def OnLine (s : MonochromeSprite ℝ) (p : Point ℝ) : Prop :=
  ∃ inverse, s.transformation.inverse? = some inverse ∧ s.bounds.OnLine (inverse.apply p)

theorem shade_of_not_onLine {p : Point ℝ} (h : ¬ s.OnLine p) (ctx : FrameContext ℝ) :
    s.shade p ctx = Rgba.transparent := by
  cases hinverse : s.transformation.inverse? with
  | none => exact shade_of_singular hinverse p ctx
  | some inverse =>
    rw [shade_of_inverse hinverse]
    refine colorAtOwn_of_outside (Bool.eq_false_iff.mpr fun hin => h ⟨inverse, hinverse, ?_⟩) ctx
    exact Bounds.onLine_of_inUnitSquare hin

theorem corners_ne_nil : s.corners ≠ [] := by
  simp [corners, unitCorners]

/-- A sprite that is moved and made larger or smaller, but not turned, mirrored or sheared. -/
structure Upright (s : MonochromeSprite ℝ) : Prop where
  a : 0 < s.transformation.a
  b : s.transformation.b = 0
  c : s.transformation.c = 0
  d : 0 < s.transformation.d

namespace Upright

/-- Mapped back and forth, a point is where it was. -/
theorem apply_inverse (hs : s.Upright) {inverse : Transformation ℝ}
    (hinverse : s.transformation.inverse? = some inverse) (p : Point ℝ) :
    s.transformation.a * (inverse.apply p).x + s.transformation.tx = p.x
      ∧ s.transformation.d * (inverse.apply p).y + s.transformation.ty = p.y := by
  have hback := Transformation.apply_inverse_apply hinverse p
  have hx : s.transformation.a * (inverse.apply p).x + s.transformation.b * (inverse.apply p).y
      + s.transformation.tx = p.x := congrArg Point.x hback
  have hy : s.transformation.c * (inverse.apply p).x + s.transformation.d * (inverse.apply p).y
      + s.transformation.ty = p.y := congrArg Point.y hback
  rw [hs.b, zero_mul, add_zero] at hx
  rw [hs.c, zero_mul, zero_add] at hy
  exact ⟨hx, hy⟩

/-- With no width, no corner is to the right of where the left side is mapped; with no height, none
is below the top side. -/
theorem corner_le (hs : s.Upright) {q : Point ℝ} (hq : q ∈ s.corners) :
    (s.bounds.size.width ≤ 0 →
        q.x ≤ s.transformation.a * s.bounds.origin.x + s.transformation.tx)
      ∧ (s.bounds.size.height ≤ 0 →
        q.y ≤ s.transformation.d * s.bounds.origin.y + s.transformation.ty) := by
  obtain ⟨unit, hunit, rfl⟩ := List.mem_map.mp hq
  have hx : 0 ≤ unit.x ∧ 0 ≤ unit.y := by
    obtain ⟨index, hindex, rfl⟩ := List.mem_map.mp hunit
    have hbit : 0 ≤ index % 2 ∧ 0 ≤ index / 2 % 2 := by omega
    simp only [unitCorner, Scalar.ofInt_eq_intCast]
    exact_mod_cast hbit
  simp only [Transformation.apply, Bounds.place, hs.b, hs.c]
  constructor
  · intro hwidth
    have hside := mul_nonpos_of_nonneg_of_nonpos hx.1 hwidth
    nlinarith [hs.a]
  · intro hheight
    have hside := mul_nonpos_of_nonneg_of_nonpos hx.2 hheight
    nlinarith [hs.d]

/-- What its raster bounds contain is mapped back to the left of an upright sprite without width, or
above one without height. -/
theorem not_onLine (hs : s.Upright) (hempty : s.bounds.IsEmpty) (ctx : FrameContext ℝ) {p : Point ℝ}
    (hcontains : (s.project ctx).rasterBounds.contains p = true) : ¬ s.OnLine p := by
  rintro ⟨inverse, hinverse, honX, honY⟩
  have hbounds : (s.project ctx).rasterBounds
      = if s.transformation.isIdentity then s.bounds else Bounds.hull s.corners := rfl
  rw [hbounds] at hcontains
  split at hcontains
  · rw [hempty.not_contains] at hcontains
    cases hcontains
  · obtain ⟨⟨-, hx⟩, -, hy⟩ := Bounds.contains_iff.mp hcontains
    obtain ⟨hbackX, hbackY⟩ := hs.apply_inverse hinverse p
    rcases hempty with hwidth | hheight
    · have hright := Bounds.hull_right_le corners_ne_nil fun q hq => (hs.corner_le hq).1 hwidth
      have hleft : (inverse.apply p).x < s.bounds.origin.x := by
        refine lt_of_mul_lt_mul_left ?_ hs.a.le
        linarith
      exact hleft.not_ge (honX hwidth).1
    · have hbottom := Bounds.hull_bottom_le corners_ne_nil fun q hq => (hs.corner_le hq).2 hheight
      have habove : (inverse.apply p).y < s.bounds.origin.y := by
        refine lt_of_mul_lt_mul_left ?_ hs.d.le
        linarith
      exact habove.not_ge (honY hheight).1

end Upright

end MonochromeSprite

/-! ## Underlines -/

namespace Underline

variable {u : Underline ℝ}

/-- How far below the middle of the wave a point is. -/
noncomputable def waveDistance (u : Underline ℝ) (p : Point ℝ) : ℝ :=
  p.y - u.band.origin.y - max u.thickness 0 / 2 - waveTop (p.x - u.band.origin.x)

/-- Coverage of the wave at a point of the frame, whether the band has it or not. -/
noncomputable def coverageAt (u : Underline ℝ) (p : Point ℝ) : ℝ :=
  waveCoverage u.thickness (p.x - u.band.origin.x) (p.y - u.band.origin.y)

theorem coverageAt_eq (u : Underline ℝ) (p : Point ℝ) :
    u.coverageAt p = saturate (max u.thickness 0 / 2 - |u.waveDistance p| + 1 / 2) := by
  have hhalf : (0.5 : ℝ) = 1 / 2 := by norm_num
  rw [← hhalf]
  rfl

/-- What the wave does not cover is transparent, in the band and outside. -/
theorem shade_of_uncovered {p : Point ℝ} (hwavy : u.wavy = true) (hcoverage : u.coverageAt p ≤ 0)
    (ctx : FrameContext ℝ) : u.shade p ctx = Rgba.transparent := by
  have huncovered :
      waveCoverage u.thickness (p.x - u.band.origin.x) (p.y - u.band.origin.y) ≤ 0 := hcoverage
  rw [shade, project, evaluate]
  dsimp only
  rw [if_pos hwavy, if_pos huncovered]
  exact ite_self _

/-- Where the wave covers a point, it is drawn with that coverage inside the band and not at all
outside. -/
theorem shade_of_covered {p : Point ℝ} (hwavy : u.wavy = true)
    (hmask : u.contentMask.clips p = false) (hcoverage : 0 < u.coverageAt p)
    (ctx : FrameContext ℝ) :
    u.shade p ctx = if u.band.contains p then
      u.color.toLinear.fade (u.coverageAt p) ctx.premultipliedAlpha else Rgba.transparent := by
  rw [shade, project, evaluate]
  dsimp only
  rw [hmask, Bool.false_or, if_pos hwavy]
  cases u.band.contains p
  · rfl
  · exact if_neg hcoverage.not_ge

/-- An underline is as thick as it says or has no thickness; below 0 nothing changes. -/
theorem paint_of_thickness_nonpos (hthickness : u.thickness ≤ 0) (ctx : FrameContext ℝ) :
    (Item.underline u).paint ctx = (Item.underline { u with thickness := 0 }).paint ctx := by
  have hmax : max u.thickness 0 = max (0 : ℝ) 0 := by
    rw [max_eq_right hthickness, max_self]
  have hband : u.band = ({ u with thickness := 0 } : Underline ℝ).band := by
    simp only [band, hmax]
  simp only [Item.paint, project, evaluate, waveCoverage, hband, hmax]
  rfl

/-- Half a pixel from the middle of a wave without thickness there is nothing. -/
theorem shade_of_far {p : Point ℝ} (hthickness : u.thickness ≤ 0) (hwavy : u.wavy = true)
    (hfar : 1 / 2 ≤ |u.waveDistance p|) (ctx : FrameContext ℝ) :
    u.shade p ctx = Rgba.transparent := by
  have hcoverage : u.coverageAt p ≤ 0 := by
    rw [coverageAt_eq, max_eq_right hthickness]
    exact (saturate_of_nonpos (by linarith)).le
  exact shade_of_uncovered hwavy hcoverage ctx

/-- Along the middle of a wave without thickness half of the colour is left. -/
theorem alpha_shade_of_middle {p : Point ℝ} (hthickness : u.thickness ≤ 0) (hwavy : u.wavy = true)
    (hmask : u.contentMask.clips p = false) (hcontains : u.band.contains p = true)
    (hmiddle : u.waveDistance p = 0) (ctx : FrameContext ℝ) :
    (u.shade p ctx).a = u.color.a / 2 := by
  have hcoverage : u.coverageAt p = 1 / 2 := by
    rw [coverageAt_eq, max_eq_right hthickness, hmiddle, abs_zero, zero_div, sub_zero, zero_add,
      saturate_eq_self (by norm_num) (by norm_num)]
  have hcovered : 0 < u.coverageAt p := by
    rw [hcoverage]
    exact one_half_pos
  rw [shade_of_covered hwavy hmask hcovered, if_pos hcontains, hcoverage]
  show u.color.toLinear.a * (1 / 2) = u.color.a / 2
  rw [Hsla.alpha_toLinear, mul_one_div]

theorem band_isEmpty (h : u.bounds.size.width ≤ 0 ∨ (u.thickness ≤ 0 ∧ u.wavy = false)) :
    u.band.IsEmpty := by
  rcases h with hwidth | ⟨hthickness, hwavy⟩
  · left
    unfold band
    split <;> exact hwidth
  · right
    rw [band, hwavy]
    exact (max_eq_right hthickness).le

end Underline

/-! ## All shapes -/

namespace Item

/-- Without area: a side of the bounds is not positive, or the thickness of an underline. -/
def IsEmpty : Item ℝ → Prop
  | quad q => q.bounds.IsEmpty
  | shadow s => s.bounds.IsEmpty
  | monochromeSprite s => s.bounds.IsEmpty
  | polychromeSprite s => s.bounds.IsEmpty
  | triangle _ => False
  | underline u => u.bounds.size.width ≤ 0 ∨ u.thickness ≤ 0

/-- A shadow has no negative radius, blur or alpha. -/
def Regular : Item ℝ → Prop
  | shadow s => s.cornerRadii.Nonneg ∧ 0 ≤ s.blurRadius ∧ 0 ≤ s.color.a
  | _ => True

/-- Where in its raster bounds an item without area may leave a trace. -/
def Traces : Item ℝ → Point ℝ → Prop
  | shadow s, _ => 0 < s.blurRadius ∧ s.blurRadius < Shadow.minBlurRadius
  | monochromeSprite s, p => s.OnLine p
  | underline u, p => u.wavy = true ∧ |u.waveDistance p| < 1 / 2
  | _, _ => False

theorem layOn_of_isEmpty (item : Item ℝ) (hempty : item.IsEmpty) (hregular : item.Regular)
    {ctx : FrameContext ℝ} {width height column row : ℕ} (hx : column < width)
    (hy : row < height)
    (htrace : ¬ ((item.paint ctx).rasterBounds.contains (pixelCenter (column, row)) = true
      ∧ item.Traces (pixelCenter (column, row))))
    (below : Rgba ℝ) : item.layOn ctx width height (column, row) below = below := by
  by_cases hcontains :
      (item.paint ctx).rasterBounds.contains (pixelCenter (column, row)) = true
  · have hout := fun h => htrace ⟨hcontains, h⟩
    have habsurd {b : Bounds ℝ} (hbounds : (item.paint ctx).rasterBounds = b) : ¬ b.IsEmpty :=
      fun h => Bool.false_ne_true ((h.not_contains _).symm.trans (hbounds ▸ hcontains))
    cases item with
    | quad q => exact absurd hempty (habsurd rfl)
    | polychromeSprite s => exact absurd hempty (habsurd rfl)
    | triangle t => exact hempty.elim
    | shadow s =>
      obtain ⟨hradii, hblur, hcolor⟩ := hregular
      rcases hblur.eq_or_lt with hsharp | hpositive
      · exact absurd hempty (habsurd (s.rasterBounds_of_sharp hsharp.symm ctx))
      · have hblurred : Shadow.minBlurRadius ≤ s.blurRadius :=
          not_lt.mp fun hsmall => hout ⟨hpositive, hsmall⟩
        refine layOn_of_alpha ?_ width height below
        exact s.alpha_shade_nonpos hempty hradii hblurred hcolor _ ctx
    | monochromeSprite s =>
      refine layOn_of_transparent ?_ width height below
      exact s.shade_of_not_onLine hout ctx
    | underline u =>
      have hband := habsurd (b := u.band) rfl
      have hwidth : ¬ u.bounds.size.width ≤ 0 := fun h => hband (Underline.band_isEmpty (.inl h))
      have hthickness : u.thickness ≤ 0 := hempty.resolve_left hwidth
      have hwavy : u.wavy = true := by
        by_contra hstraight
        exact hband (Underline.band_isEmpty (.inr ⟨hthickness, Bool.eq_false_iff.mpr hstraight⟩))
      refine layOn_of_transparent ?_ width height below
      exact Underline.shade_of_far hthickness hwavy (not_lt.mp fun h => hout ⟨hwavy, h⟩) ctx
  · exact layOn_of_not_contains hx hy (Bool.eq_false_iff.mpr hcontains) below

end Item

/-- A shape without area leaves the pixels as they are: all of them but those of its raster bounds
where it may leave a trace, and for an upright sprite all. An underline whose thickness is not
positive is drawn as one of thickness 0. -/
theorem empty_shapes_leave_no_trace :
    (∀ (item : Item ℝ) (ctx : FrameContext ℝ) (canvas : Canvas ℝ) (column row : ℕ),
      item.IsEmpty → item.Regular → column < canvas.frame.width → row < canvas.frame.height →
      ¬ ((item.paint ctx).rasterBounds.contains (pixelCenter (column, row)) = true
        ∧ item.Traces (pixelCenter (column, row))) →
      (Canvas.draw ctx canvas item).frame.pixel column row = canvas.frame.pixel column row)
    ∧ (∀ s : MonochromeSprite ℝ, s.Upright → s.bounds.IsEmpty →
      ∀ (ctx : FrameContext ℝ) (canvas : Canvas ℝ),
        (Canvas.draw ctx canvas (.monochromeSprite s)).frame = canvas.frame)
    ∧ ∀ u : Underline ℝ, u.thickness ≤ 0 → ∀ (ctx : FrameContext ℝ) (canvas : Canvas ℝ),
      Canvas.draw ctx canvas (.underline u)
        = Canvas.draw ctx canvas (.underline { u with thickness := 0 }) := by
  refine ⟨?_, ?_, ?_⟩
  · intro item ctx canvas column row hempty hregular hx hy htrace
    rw [Canvas.pixel_draw _ _ _ hx hy]
    exact item.layOn_of_isEmpty hempty hregular hx hy htrace _
  · intro s hs hempty ctx canvas
    refine Frame.ext_pixel (Canvas.width_draw ..) (Canvas.height_draw ..) fun column hx row hy => ?_
    rw [Canvas.width_draw] at hx
    rw [Canvas.height_draw] at hy
    rw [Canvas.pixel_draw _ _ _ hx hy]
    have htrace : ¬ (((Item.monochromeSprite s).paint ctx).rasterBounds.contains
          (pixelCenter (column, row)) = true
        ∧ (Item.monochromeSprite s).Traces (pixelCenter (column, row))) :=
      fun ⟨hcontains, honLine⟩ => hs.not_onLine hempty ctx hcontains honLine
    exact (Item.monochromeSprite s).layOn_of_isEmpty hempty trivial hx hy htrace _
  · intro u hthickness ctx canvas
    exact Canvas.draw_congr (Underline.paint_of_thickness_nonpos hthickness ctx) canvas

/-- A blurred shadow whose sides have changed places, a moved sprite without width, and a wave of
negative thickness. -/
theorem empty_shapes_leave_no_trace_mirrored :
    let ctx : FrameContext ℝ := ⟨⟨1, 1⟩, true, 4, false, none⟩
    let canvas : Canvas ℝ := ⟨Frame.blank 1 1, #[]⟩
    let shadow : Shadow ℝ := ⟨⟨0, .of 0 0 8 8, .of 1 0 (-2) 4⟩, ⟨0, 0, 0, 0⟩, 1, ⟨0, 0, 0, 1⟩⟩
    let sprite : MonochromeSprite ℝ := ⟨⟨0, .of 0 0 8 8, .of 0 0 0 4⟩, ⟨0, 0, 0, 1⟩,
      ⟨.numbered ⟨.monochrome, 0⟩, .of 0 0 1 1⟩, ⟨1, 0, 0, 1, 1 / 2, 0⟩⟩
    let wave : Underline ℝ := ⟨⟨0, .of 0 0 8 8, .of 0 0 1 1⟩, ⟨0, 0, 0, 1⟩, -1, true⟩
    (Canvas.draw ctx canvas (.shadow shadow)).frame.pixel 0 0 = canvas.frame.pixel 0 0
      ∧ (Canvas.draw ctx canvas (.monochromeSprite sprite)).frame = canvas.frame
      ∧ Canvas.draw ctx canvas (.underline wave)
        = Canvas.draw ctx canvas (.underline { wave with thickness := 0 }) := by
  intro ctx canvas shadow sprite wave
  have hradii : shadow.cornerRadii.Nonneg := ⟨le_rfl, le_rfl, le_rfl, le_rfl⟩
  have hblurred : ¬ (Item.shadow shadow).Traces (pixelCenter (0, 0)) := by
    show ¬ ((0 : ℝ) < 1 ∧ (1 : ℝ) < 1e-4)
    norm_num
  have hwidth : shadow.bounds.IsEmpty := by
    left
    show (-2 : ℝ) ≤ 0
    norm_num
  have hupright : sprite.Upright := ⟨one_pos, rfl, rfl, one_pos⟩
  have hthickness : wave.thickness ≤ 0 := by
    show (-1 : ℝ) ≤ 0
    norm_num
  obtain ⟨hitems, hsprites, hwaves⟩ := empty_shapes_leave_no_trace
  refine ⟨?_, hsprites sprite hupright (.inl le_rfl) ctx canvas, hwaves wave hthickness ctx canvas⟩
  exact hitems (.shadow shadow) ctx canvas 0 0 hwidth ⟨hradii, zero_le_one, zero_le_one⟩ one_pos
    one_pos fun h => hblurred h.2

/-- A wave without thickness through the centre of a pixel covers half of it. -/
theorem wave_without_thickness_seen :
    let u : Underline ℝ :=
      ⟨⟨0, .of 0 0 8 8, .of (1 / 2) (1 / 2) 1 1⟩, ⟨0, 0, 0, 1⟩, 0, true⟩
    let ctx : FrameContext ℝ := ⟨⟨1, 1⟩, true, 4, false, none⟩
    let canvas : Canvas ℝ := ⟨Frame.blank 1 1, #[]⟩
    u.thickness ≤ 0
      ∧ (Canvas.draw ctx canvas (.underline u)).frame.pixel 0 0 ≠ canvas.frame.pixel 0 0 := by
  intro u ctx canvas
  refine ⟨le_rfl, fun hsame => ?_⟩
  have hband : u.band = ⟨⟨1 / 2, -1⟩, ⟨1, 3⟩⟩ := by
    norm_num [u, Underline.band, Underline.waveAmplitude, Bounds.of]
  have hcenter : pixelCenter (0, 0) = (⟨1 / 2, 1 / 2⟩ : Point ℝ) := by
    norm_num [pixelCenter_eq]
  have hhas : (u.band.span (Scalar.ofNat 1) (Scalar.ofNat 1)).has (0, 0) = true := by
    rw [hband, Bounds.span_has (by decide) (by decide)]
    norm_num
  have hmask : u.contentMask.clips ⟨1 / 2, 1 / 2⟩ = false := by
    rw [Bool.eq_false_iff, ne_eq, Bounds.clips_iff]
    norm_num [u, Bounds.of]
  have hcontains : u.band.contains ⟨1 / 2, 1 / 2⟩ = true := by
    rw [hband, Bounds.contains_iff]
    norm_num
  have htop : Underline.waveTop (0 : ℝ) = 3 / 2 := by
    show (1.5 : ℝ) + 1.5 * Real.sin (2 * Real.pi * 0 / 6) = 3 / 2
    norm_num
  have hmiddle : u.waveDistance ⟨1 / 2, 1 / 2⟩ = 0 := by
    rw [Underline.waveDistance, hband, sub_self, htop, show u.thickness = 0 from rfl]
    norm_num
  have halpha : (u.shade ⟨1 / 2, 1 / 2⟩ ctx).a = 1 / 2 :=
    Underline.alpha_shade_of_middle le_rfl rfl hmask hcontains hmiddle ctx
  have hdrawn : (Canvas.draw ctx canvas (.underline u)).frame.pixel 0 0
      = (u.shade ⟨1 / 2, 1 / 2⟩ ctx).onto true Rgba.transparent := by
    rw [Canvas.pixel_draw _ _ _ one_pos one_pos, ← hcenter, ← Rgba.store_eq_self (u.shade _ ctx)]
    exact if_pos hhas
  have hblank : canvas.frame.pixel 0 0 = Rgba.transparent := rfl
  have hpositive : 0 < (u.shade ⟨1 / 2, 1 / 2⟩ ctx).a := by
    rw [halpha]
    exact one_half_pos
  have halphas := congrArg Rgba.a (hdrawn.symm.trans (hsame.trans hblank))
  rw [Rgba.alpha_onto_transparent hpositive, halpha] at halphas
  norm_num [Rgba.transparent] at halphas

end Raster
