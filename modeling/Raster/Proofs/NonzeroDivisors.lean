import Raster.Scalar.Real
import Raster.Proofs.Divisors
import Raster.Proofs.RasterBounds
import Raster.Proofs.ResolvedOptions
import Raster.Proofs.ShadowBlur

/-!
# Drawing never divides by zero

In exact arithmetic no divisor of an item or of a frame's bytes is zero
(`Item.ne_zero_of_mem_divisors`, `Frame.ne_zero_of_mem_divisors`), as long
as the bounds are not negative and the options are resolved. Most divisors
are kept away from zero by a least extent or a test that skips the
division. Three rest on something else: a gradient in a rectangle that is
wider than high divides by the width, which then exceeds a height that is
not negative; a blur divides by the number of samples, which options keep
positive; and the error function divides by a power of a number that is at
least 1.

No divisor is missing, by `paint_withDivision` and `toBytes_withDivision`;
both halves together are `drawing_divides_by_nonzero`.
-/

namespace Raster

open Scalar (RightOn)

theorem ne_zero_of_mem_constantDivisors {d : ℝ} (h : d ∈ constantDivisors) : d ≠ 0 := by
  simp only [constantDivisors, Set.mem_insert_iff, Set.mem_singleton_iff] at h
  obtain rfl | rfl | rfl | rfl | rfl | rfl | rfl := h
  · exact show (2 : ℝ) ≠ 0 by norm_num
  · exact show (6 : ℝ) ≠ 0 by norm_num
  · exact show (180 : ℝ) ≠ 0 by norm_num
  · exact show (360 : ℝ) ≠ 0 by norm_num
  · exact show (2.4 : ℝ) ≠ 0 by norm_num
  · exact show (12.92 : ℝ) ≠ 0 by norm_num
  · exact show (1.055 : ℝ) ≠ 0 by norm_num

/-- A divisor that a test lets through. -/
theorem mem_of_mem_unless {c : Prop} [Decidable c] {divisors : Set ℝ} {d : ℝ}
    (h : d ∈ if c then ∅ else divisors) : ¬ c ∧ d ∈ divisors := by
  split_ifs at h with hc
  · exact absurd h (Set.notMem_empty d)
  · exact ⟨hc, h⟩

/-- What is kept from being smaller than a positive number. -/
theorem max_ne_zero {x least : ℝ} (hleast : 0 < least) : max x least ≠ 0 :=
  (lt_max_of_lt_right hleast).ne'

theorem Size.ne_zero_of_mem_divisors {viewport : Size ℝ} {d : ℝ} (h : d ∈ viewport.divisors) :
    d ≠ 0 := by
  rcases h with rfl | rfl
  · exact max_ne_zero minExtent_pos
  · exact max_ne_zero minExtent_pos

theorem Bounds.ne_zero_of_mem_divisors {b : Bounds ℝ} {d : ℝ} (h : d ∈ b.divisors) : d ≠ 0 := by
  rcases h with rfl | rfl
  · exact max_ne_zero minExtent_pos
  · exact max_ne_zero minExtent_pos

/-! ## Fills -/

theorem gradientEpsilon_pos : (0 : ℝ) < gradientEpsilon := by
  show (0 : ℝ) < 1e-6
  norm_num

theorem gradientSpan_ne_zero (first last : ℝ) : gradientSpan first last ≠ 0 := by
  unfold gradientSpan
  dsimp only
  split_ifs with hshort hnegative
  · exact neg_ne_zero.mpr gradientEpsilon_pos.ne'
  · exact gradientEpsilon_pos.ne'
  · exact abs_pos.mp (gradientEpsilon_pos.trans_le (not_lt.mp hshort))

/-- A rectangle that is wider than high has a width, as its height is not negative. -/
theorem PreparedFill.ne_zero_of_mem_divisors {fill : PreparedFill ℝ} {size : Size ℝ}
    (hheight : 0 ≤ size.height) {d : ℝ} (h : d ∈ fill.divisors size) : d ≠ 0 := by
  cases fill with
  | solid c => exact absurd h (Set.notMem_empty d)
  | linear g =>
    rcases h with rfl | rfl | rfl | rfl | rfl
    · split_ifs with hwide
      · exact (hheight.trans_lt hwide).ne'
      · exact max_ne_zero gradientEpsilon_pos
    · exact max_ne_zero gradientEpsilon_pos
    · exact max_ne_zero gradientEpsilon_pos
    · exact max_ne_zero gradientEpsilon_pos
    · exact gradientSpan_ne_zero _ _

theorem Rgba.ne_zero_of_mem_coverDivisors {below above : Rgba ℝ} {d : ℝ}
    (h : d ∈ below.coverDivisors above) : d ≠ 0 := by
  obtain ⟨halpha, rfl⟩ := mem_of_mem_unless h
  exact (not_le.mp halpha).ne'

/-! ## Shapes -/

theorem Quad.ne_zero_of_mem_divisors {q : Quad ℝ} (hheight : 0 ≤ q.bounds.size.height)
    {v : QuadVarying ℝ} {p : Point ℝ} {d : ℝ} (h : d ∈ q.divisors v p) : d ≠ 0 := by
  rcases h with (hfill | hcover) | (rfl | rfl)
  · exact PreparedFill.ne_zero_of_mem_divisors hheight hfill
  · exact Rgba.ne_zero_of_mem_coverDivisors hcover
  · exact max_ne_zero minExtent_pos
  · exact max_ne_zero minExtent_pos

theorem erfDivisor_ne_zero (v : ℝ) : erfDivisor v ≠ 0 := by
  have hbase := zero_lt_one.trans_le (one_le_erfBase (abs_nonneg v))
  have hpower : erfDivisor v = erfBase |v| * erfBase |v| * (erfBase |v| * erfBase |v|) := rfl
  rw [hpower]
  positivity

theorem Shadow.ne_zero_of_mem_divisors {shadow : Shadow ℝ} {samples : ℕ} (hsamples : 0 < samples)
    {d : ℝ} (h : d ∈ shadow.divisors (Scalar.ofNat samples)) : d ≠ 0 := by
  obtain ⟨hsharp, h⟩ := mem_of_mem_unless h
  have hleast : (0 : ℝ) < minBlurRadius := by
    show (0 : ℝ) < 1e-4
    norm_num
  have hsigma : 0 < shadow.blurRadius := hleast.trans_le (not_lt.mp hsharp)
  rcases h with (rfl | rfl | rfl | rfl) | ⟨v, rfl⟩
  · exact Nat.cast_ne_zero.mpr hsamples.ne'
  · exact hsigma.ne'
  · show (2 : ℝ) * shadow.blurRadius * shadow.blurRadius ≠ 0
    positivity
  · show Real.sqrt (2 * Real.pi) * shadow.blurRadius ≠ 0
    positivity
  · exact erfDivisor_ne_zero v

theorem Triangle.ne_zero_of_mem_divisors {t : Triangle ℝ} {d : ℝ} (h : d ∈ t.divisors) :
    d ≠ 0 := by
  obtain ⟨hflat, rfl⟩ := mem_of_mem_unless h
  exact fun hcross => hflat (Scalar.beq_iff_eq.mpr hcross)

theorem TriangleVarying.ne_zero_of_mem_divisors {v : TriangleVarying ℝ} {p : Point ℝ} {d : ℝ}
    (h : d ∈ v.divisors p) : d ≠ 0 := by
  have hleast : (0 : ℝ) < minSlope := by
    show (0 : ℝ) < 1e-6
    norm_num
  obtain ⟨hsteep, rfl⟩ := mem_of_mem_unless h
  exact (hleast.trans_le (not_lt.mp hsteep)).ne'

theorem Transformation.ne_zero_of_mem_divisors {t : Transformation ℝ} {d : ℝ}
    (h : d ∈ t.divisors) : d ≠ 0 := by
  have hleast : (0 : ℝ) < minDet := by
    show (0 : ℝ) < 1e-12
    norm_num
  obtain ⟨hregular, rfl⟩ := mem_of_mem_unless h
  exact abs_pos.mp (hleast.trans_le (not_lt.mp hregular))

theorem BoundTexture.ne_zero_of_mem_divisors {bound : BoundTexture ℝ} {d : ℝ}
    (h : d ∈ bound.divisors) : d ≠ 0 := by
  rcases h with rfl | rfl
  · exact max_ne_zero minExtent_pos
  · exact max_ne_zero minExtent_pos

/-! ## Items and frames -/

/-- The bounds of an item; those of a triangle are its path's. -/
def Item.bounds {α : Type} : Item α → Bounds α
  | quad q => q.bounds
  | shadow s => s.bounds
  | monochromeSprite s => s.bounds
  | polychromeSprite s => s.bounds
  | triangle t => t.a.bounds
  | underline u => u.bounds

theorem Item.ne_zero_of_mem_divisors {ctx : FrameContext ℝ} (hsamples : 0 < ctx.shadowSamples)
    {item : Item ℝ} (hheight : 0 ≤ item.bounds.size.height) {p : Point ℝ} {d : ℝ}
    (h : d ∈ item.divisors ctx p) : d ≠ 0 := by
  obtain (hconstant | hviewport) | h := h
  · exact ne_zero_of_mem_constantDivisors hconstant
  · exact Size.ne_zero_of_mem_divisors hviewport
  · cases item with
    | quad q => exact Quad.ne_zero_of_mem_divisors hheight h
    | shadow s => exact Shadow.ne_zero_of_mem_divisors hsamples h
    | monochromeSprite s =>
      obtain (hdet | hbounds) | ⟨bound, -, htexture⟩ := h
      · exact Transformation.ne_zero_of_mem_divisors hdet
      · exact Bounds.ne_zero_of_mem_divisors hbounds
      · exact BoundTexture.ne_zero_of_mem_divisors htexture
    | polychromeSprite s =>
      obtain hbounds | ⟨bound, -, htexture⟩ := h
      · exact Bounds.ne_zero_of_mem_divisors hbounds
      · exact BoundTexture.ne_zero_of_mem_divisors htexture
    | triangle t =>
      obtain (hcross | hfill) | hslope := h
      · exact Triangle.ne_zero_of_mem_divisors hcross
      · exact PreparedFill.ne_zero_of_mem_divisors hheight hfill
      · exact TriangleVarying.ne_zero_of_mem_divisors hslope
    | underline u => exact absurd h (Set.notMem_empty d)

theorem Frame.ne_zero_of_mem_divisors {f : Frame ℝ} {d : ℝ} (h : d ∈ f.divisors) : d ≠ 0 := by
  obtain hconstant | ⟨i, -, rfl, hvisible⟩ := h
  · exact ne_zero_of_mem_constantDivisors hconstant
  · exact fun halpha => hvisible (Scalar.beq_iff_eq.mpr halpha)

/-- Under resolved options, with any atlas and at any point, an item whose bounds are not negative
divides by nothing that is zero, and neither do the bytes of any frame. The divisors are all there
are: a division that is right for them, whatever it gives elsewhere, draws the same. -/
theorem drawing_divides_by_nonzero {input : OptionsInput ℝ} {options : Options ℝ}
    (hoptions : Options.resolve input = .ok options) (atlas : Option (Atlas ℝ)) {item : Item ℝ}
    (hheight : 0 ≤ item.bounds.size.height) (p : Point ℝ) (frame : Frame ℝ) :
    (∀ d ∈ item.divisors (options.context atlas) p, d ≠ 0) ∧
    (∀ d ∈ frame.divisors, d ≠ 0) ∧
    ∀ div rem : ℝ → ℝ → ℝ,
      (RightOn div rem (item.divisors (options.context atlas) p) →
        @Item.devicePositions ℝ (.withDivision div rem) (options.context atlas) item =
          item.devicePositions (options.context atlas) ∧
        (@Item.paint ℝ (.withDivision div rem) (options.context atlas) item).rasterBounds =
          (item.paint (options.context atlas)).rasterBounds ∧
        (@Item.paint ℝ (.withDivision div rem) (options.context atlas) item).colorAt p =
          (item.paint (options.context atlas)).colorAt p) ∧
      (RightOn div rem frame.divisors →
        @Frame.toBytes ℝ (.withDivision div rem) frame = frame.toBytes) := by
  have hsamples := (Options.checked_of_resolve hoptions).shadowSamples
  exact ⟨fun d hd => Item.ne_zero_of_mem_divisors hsamples hheight hd,
    fun d hd => Frame.ne_zero_of_mem_divisors hd,
    fun div rem => ⟨paint_withDivision, toBytes_withDivision⟩⟩

/-- A rectangle of width 4 and height 0, whose gradient has both stops in one place. -/
theorem drawing_divides_by_nonzero_flat_gradient :
    let stop : ColorStop ℝ := ⟨⟨0, 0, 0, 1⟩, 0.5⟩
    let q : Quad ℝ :=
      { order := 0
        contentMask := .of 0 0 4 4
        bounds := .of 0 0 4 0
        fill := .linear ⟨90, stop, stop, .srgb⟩
        borderColor := ⟨0, 0, 0, 0⟩
        cornerRadii := ⟨1, 1, 1, 1⟩
        borderWidths := ⟨1, 0, 0, 2⟩ }
    let options : Options ℝ :=
      ⟨⟨0, 0⟩, false, 4, false, Rgba.transparent, 4096, 65536, false⟩
    Options.resolve ⟨⟨0, 0⟩, none, none, none, none, none, none, none⟩ = .ok options ∧
      0 ≤ q.bounds.size.height ∧
      (∀ d ∈ (Item.quad q).divisors (options.context none) ⟨2, 0⟩, d ≠ 0) ∧
      ∀ d ∈ (Frame.blank 2 1 : Frame ℝ).divisors, d ≠ 0 := by
  have hextent (side : ViewportSide) : Options.checkExtent side (0 : ℝ) = .ok () :=
    Options.checkExtent_iff.mpr ⟨decide_eq_true (sub_self 0), lt_irrefl 0⟩
  intro stop q options
  have hoptions : Options.resolve ⟨⟨0, 0⟩, none, none, none, none, none, none, none⟩ =
      .ok options := by
    unfold Options.resolve Options.checkViewport
    rw [hextent .width, hextent .height]
    rfl
  have hnonzero := @drawing_divides_by_nonzero _ _ hoptions none (.quad q) (le_refl 0) ⟨2, 0⟩
    (Frame.blank 2 1)
  exact ⟨hoptions, le_refl 0, hnonzero.1, hnonzero.2.1⟩

end Raster
