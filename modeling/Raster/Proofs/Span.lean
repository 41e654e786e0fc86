import Raster.Proofs.ExactNaturals
import Mathlib.Data.List.Intervals
import Mathlib.Data.List.Nodup
import Raster.Frame.Span

/-!
# The pixels of a span

`Span.pixels` lists each pixel of the frame that lies in the span, once.
In exact arithmetic these are the pixels whose centres lie in the
rectangle (`Bounds.span_has`), of which the far sides are not a part.

The ends of a span are natural numbers of the frame (`firstPixel_eq`),
wherever the rectangle is. As a rectangle keeps its near sides and leaves
out its far ones, the two parts of a rectangle that is cut in two have its
pixels between them and none twice (`Bounds.span_leftOf_rightOf`,
`Bounds.span_above_below`).

A loop that starts at the near ends of a span and counts up to the far
ones does not look at the frame (`Span.walk?`). It comes to an end after
the pixels of the span, in their order, because its ends are natural
numbers that the frame bounds (`Bounds.walk?_span`).
-/

namespace Raster

variable {α : Type} [Scalar α]

namespace Bounds

/-! ## Cut rectangles -/

/-- The part of a rectangle on the left of the vertical line at `x`. -/
def leftOf (b : Bounds α) (x : α) : Bounds α := ⟨b.origin, ⟨x - b.origin.x, b.size.height⟩⟩

/-- The part on the right of the vertical line at `x`. -/
def rightOf (b : Bounds α) (x : α) : Bounds α :=
  ⟨⟨x, b.origin.y⟩, ⟨b.origin.x + b.size.width - x, b.size.height⟩⟩

/-- The part above the horizontal line at `y`. -/
def above (b : Bounds α) (y : α) : Bounds α := ⟨b.origin, ⟨b.size.width, y - b.origin.y⟩⟩

/-- The part below the horizontal line at `y`. -/
def below (b : Bounds α) (y : α) : Bounds α :=
  ⟨⟨b.origin.x, y⟩, ⟨b.size.width, b.origin.y + b.size.height - y⟩⟩

end Bounds

/-! ## The list of pixels -/

namespace Span

/-- Whether a pixel lies in the span. -/
def has (s : Span α) (pixel : Nat × Nat) : Bool := s.hasColumn pixel.1 && s.hasRow pixel.2

theorem has_iff {s : Span α} {pixel : Nat × Nat} :
    s.has pixel = true ↔
      (s.x0 ≤ Scalar.ofNat pixel.1 ∧ Scalar.ofNat pixel.1 < s.x1)
        ∧ s.y0 ≤ Scalar.ofNat pixel.2 ∧ Scalar.ofNat pixel.2 < s.y1 := by
  simp [has, hasColumn, hasRow]

theorem mem_pixels {s : Span α} {width height : Nat} {pixel : Nat × Nat} :
    pixel ∈ s.pixels width height
      ↔ pixel.1 < width ∧ pixel.2 < height ∧ s.has pixel = true := by
  obtain ⟨column, row⟩ := pixel
  unfold pixels
  split
  · simp only [List.not_mem_nil, false_iff]
    omega
  · simp only [List.mem_flatMap, List.mem_map, List.mem_filter, List.mem_range, Prod.mk.injEq,
      has, Bool.and_eq_true]
    constructor
    · rintro ⟨y, ⟨hy, hrow⟩, x, ⟨hx, hcolumn⟩, rfl, rfl⟩
      exact ⟨hx, hy, hcolumn, hrow⟩
    · rintro ⟨hx, hy, hcolumn, hrow⟩
      exact ⟨row, ⟨hy, hrow⟩, column, ⟨hx, hcolumn⟩, rfl, rfl⟩

theorem nodup_pixels (s : Span α) (width height : Nat) : (s.pixels width height).Nodup := by
  unfold pixels
  split
  · exact List.nodup_nil
  · have hcolumns : ((List.range width).filter s.hasColumn).Nodup :=
      List.nodup_range.filter _
    have hrows : ((List.range height).filter s.hasRow).Nodup := List.nodup_range.filter _
    refine List.nodup_flatMap.mpr ⟨fun y _ => hcolumns.map fun x x' h => ?_, ?_⟩
    · exact congrArg Prod.fst h
    · refine hrows.imp fun hne => ?_
      intro pixel hpixel hpixel'
      obtain ⟨x, _, hx⟩ := List.mem_map.mp hpixel
      obtain ⟨x', _, hx'⟩ := List.mem_map.mp hpixel'
      exact hne (congrArg Prod.snd (hx.trans hx'.symm))

/-- The span of some columns and rows. -/
def between (x0 x1 y0 y1 : Nat) : Span α :=
  ⟨Scalar.ofNat x0, Scalar.ofNat x1, Scalar.ofNat y0, Scalar.ofNat y1⟩

/-- What a loop goes through that starts at `first` and takes steps of one while it is before
`last`. Given up if a number on the way is not natural, or if so many steps are not enough. -/
def countTo? (last : α) : (steps : Nat) → (first : α) → Option (List Nat)
  | 0, first => if first < last then none else some []
  | steps + 1, first =>
    if first < last then do
      let n ← (Scalar.toInt? first).bind Int.toNat?
      let rest ← countTo? last steps (first + 1)
      return n :: rest
    else some []

/-- What two loops go through, the outer one over the rows of a span and the inner one over its
columns. -/
def walk? (s : Span α) (steps : Nat) : Option (List (Nat × Nat)) := do
  let rows ← countTo? s.y1 steps s.y0
  let columns ← countTo? s.x1 steps s.x0
  return rows.flatMap fun y => columns.map fun x => (x, y)

section
variable {bound : Nat} (h : Scalar.ExactBelow α bound)
include h

theorem filter_range {x0 x1 extent : Nat} (hends : x0 ≤ x1) (hextent : x1 ≤ extent)
    (hbound : extent < bound) :
    (List.range extent).filter
        (fun x => decide (Scalar.ofNat x0 ≤ (Scalar.ofNat x : α))
          && decide (Scalar.ofNat x < (Scalar.ofNat x1 : α)))
      = List.Ico x0 x1 := by
  have hsame : ∀ x ∈ List.Ico 0 extent,
      (decide (Scalar.ofNat x0 ≤ (Scalar.ofNat x : α))
          && decide (Scalar.ofNat x < (Scalar.ofNat x1 : α)))
        = (decide (x0 ≤ x) && decide (x < x1)) := by
    intro x hx
    obtain ⟨-, hx⟩ := List.Ico.mem.mp hx
    simp only [h.le (show x0 ≤ bound by omega) (show x < bound by omega),
      h.lt (show x < bound by omega) (show x1 < bound by omega)]
  rw [← List.Ico.zero_bot, List.filter_congr hsame, ← List.filter_filter, List.Ico.filter_lt,
    List.Ico.filter_le, Nat.zero_max, Nat.min_eq_right hextent]

/-- Between natural ends inside the frame a span has all columns and rows. -/
theorem pixels_between {x0 x1 y0 y1 width height : Nat} (hcolumns : x0 ≤ x1) (hrows : y0 ≤ y1)
    (hx : x1 ≤ width) (hy : y1 ≤ height) (hwidth : width < bound) (hheight : height < bound) :
    (between x0 x1 y0 y1 : Span α).pixels width height
      = (List.Ico y0 y1).flatMap fun y => (List.Ico x0 x1).map fun x => (x, y) := by
  have hc : (List.range width).filter (between x0 x1 y0 y1 : Span α).hasColumn
      = List.Ico x0 x1 := filter_range h hcolumns hx hwidth
  have hr : (List.range height).filter (between x0 x1 y0 y1 : Span α).hasRow
      = List.Ico y0 y1 := filter_range h hrows hy hheight
  unfold pixels
  split
  next hempty =>
    rcases hempty with rfl | rfl
    · rw [List.Ico.eq_nil_of_le (show x1 ≤ x0 by omega)]
      simp
    · rw [List.Ico.eq_nil_of_le (show y1 ≤ y0 by omega)]
      rfl
  next => simp only [hc, hr]

theorem countTo?_ofNat {first last steps : Nat} (hends : first ≤ last) (hlast : last < bound)
    (hsteps : last ≤ first + steps) :
    countTo? (Scalar.ofNat last : α) steps (Scalar.ofNat first) = some (List.Ico first last) := by
  induction steps generalizing first with
  | zero =>
    have hend : ¬ (Scalar.ofNat first : α) < Scalar.ofNat last := by
      rw [h.lt (by omega) hlast]
      omega
    rw [List.Ico.eq_nil_of_le (show last ≤ first from hsteps)]
    exact if_neg hend
  | succ steps ih =>
    rw [countTo?]
    split
    next hbefore =>
      rw [h.lt (by omega) hlast] at hbefore
      have hone : (1 : α) = Scalar.ofNat 1 := h.literal 1
      rw [h.toInt? (by omega), hone, h.add (by omega), ih hbefore (by omega),
        List.Ico.eq_cons hbefore]
      rfl
    next hend =>
      rw [h.lt (by omega) hlast] at hend
      rw [List.Ico.eq_nil_of_le (by omega)]

/-- Between natural ends the loops come to their end. -/
theorem walk?_between {x0 x1 y0 y1 steps : Nat} (hcolumns : x0 ≤ x1) (hrows : y0 ≤ y1)
    (hx : x1 < bound) (hy : y1 < bound) (hwidth : x1 ≤ x0 + steps) (hheight : y1 ≤ y0 + steps) :
    (between x0 x1 y0 y1 : Span α).walk? steps
      = some ((List.Ico y0 y1).flatMap fun y => (List.Ico x0 x1).map fun x => (x, y)) := by
  simp only [walk?, between, countTo?_ofNat h hcolumns hx hwidth,
    countTo?_ofNat h hrows hy hheight]
  rfl

end

/-- Two spans part a third one: a pixel that lies in it lies in one of the two, and not in the
other. -/
structure PartedInto (whole first second : Span α) (width height : Nat) : Prop where
  disjoint : (first.pixels width height).Disjoint (second.pixels width height)
  mem_iff : ∀ pixel, pixel ∈ whole.pixels width height ↔
    pixel ∈ first.pixels width height ∨ pixel ∈ second.pixels width height

theorem partedInto_of_has {whole first second : Span α} {width height : Nat}
    (h : ∀ column row, column < width → row < height →
      (whole.has (column, row) = true ↔
          first.has (column, row) = true ∨ second.has (column, row) = true)
        ∧ ¬ (first.has (column, row) = true ∧ second.has (column, row) = true)) :
    whole.PartedInto first second width height := by
  constructor
  · rintro ⟨column, row⟩ hfirst hsecond
    obtain ⟨hx, hy, hfirst⟩ := mem_pixels.mp hfirst
    obtain ⟨-, -, hsecond⟩ := mem_pixels.mp hsecond
    exact (h column row hx hy).2 ⟨hfirst, hsecond⟩
  · rintro ⟨column, row⟩
    rw [mem_pixels, mem_pixels, mem_pixels, ← and_or_left, ← and_or_left]
    exact and_congr_right fun hx => and_congr_right fun hy => (h column row hx hy).1

end Span

/-! ## Exact arithmetic -/

/-- The first pixel is a natural number of the frame, its extent included. -/
theorem firstPixel_eq (edge : ℝ) (extent : ℕ) :
    firstPixel edge (Scalar.ofNat extent) = (min ⌈edge - 1 / 2⌉₊ extent : ℕ) := by
  have hhalf : (0.5 : ℝ) = 1 / 2 := by norm_num
  have hceil : max ((⌈edge - 1 / 2⌉ : ℤ) : ℝ) 0 = (⌈edge - 1 / 2⌉₊ : ℝ) := by
    rw [← Int.ceil_toNat, ← Int.cast_natCast, Int.toNat_eq_max]
    push_cast
    rfl
  show min (max ((⌈edge - 0.5⌉ : ℤ) : ℝ) 0) (extent : ℝ) = _
  rw [hhalf, hceil, Nat.cast_min]

/-- Wherever a rectangle is, the ends of its span are natural numbers of the frame. -/
theorem Bounds.exists_span_eq_between (b : Bounds ℝ) (width height : ℕ) :
    ∃ x0 x1 y0 y1, x0 ≤ x1 ∧ x1 ≤ width ∧ y0 ≤ y1 ∧ y1 ≤ height
      ∧ b.span (Scalar.ofNat width) (Scalar.ofNat height) = .between x0 x1 y0 y1 := by
  have hends (near far : ℝ) (extent : ℕ) : ∃ first last : ℕ, first ≤ last ∧ last ≤ extent
      ∧ firstPixel near (Scalar.ofNat extent) = first
      ∧ max (firstPixel near (Scalar.ofNat extent)) (firstPixel far (Scalar.ofNat extent))
        = last := by
    rw [firstPixel_eq, firstPixel_eq]
    exact ⟨_, _, le_max_left _ _, max_le (min_le_right _ _) (min_le_right _ _), rfl,
      (Nat.cast_max ..).symm⟩
  obtain ⟨x0, x1, hcolumns, hx, hx0, hx1⟩ := hends b.origin.x
    (b.origin.x + max b.size.width 0) width
  obtain ⟨y0, y1, hrows, hy, hy0, hy1⟩ := hends b.origin.y
    (b.origin.y + max b.size.height 0) height
  refine ⟨x0, x1, y0, y1, hcolumns, hx, hrows, hy, ?_⟩
  show Span.mk _ _ _ _ = Span.mk _ _ _ _
  rw [hx1, hx0, hy1, hy0]
  rfl

/-- Loops over the span of a rectangle go through its pixels, and through as many as the ends of
the span say. -/
theorem Bounds.walk?_span (b : Bounds ℝ) {width height steps : ℕ} (hwidth : width ≤ steps)
    (hheight : height ≤ steps) :
    let span := b.span (Scalar.ofNat width) (Scalar.ofNat height)
    span.walk? steps = some (span.pixels width height)
      ∧ ((span.pixels width height).length : ℝ) = (span.x1 - span.x0) * (span.y1 - span.y0) := by
  obtain ⟨x0, x1, y0, y1, hcolumns, hx, hrows, hy, hspan⟩ :=
    b.exists_span_eq_between width height
  have hexact := Scalar.exactBelow_real (max width height + 1)
  rw [hspan]
  intro span
  rw [Span.walk?_between hexact hcolumns hrows (by omega) (by omega) (by omega) (by omega),
    Span.pixels_between hexact hcolumns hrows hx hy (by omega) (by omega)]
  refine ⟨rfl, ?_⟩
  have hlength : ((List.Ico y0 y1).flatMap fun y => (List.Ico x0 x1).map fun x => (x, y)).length
      = (y1 - y0) * (x1 - x0) := by
    simp
  rw [hlength, Nat.cast_mul, Nat.cast_sub hcolumns, Nat.cast_sub hrows, mul_comm]
  rfl

theorem firstPixel_le (edge : ℝ) {extent x : ℕ} (hx : x < extent) :
    firstPixel edge (Scalar.ofNat extent) ≤ Scalar.ofNat x ↔ edge ≤ x + 1 / 2 := by
  rw [firstPixel_eq, Scalar.ofNat_eq_natCast, Nat.cast_le, min_le_iff, or_iff_left hx.not_ge,
    Nat.ceil_le, sub_le_iff_le_add]

/-- The span of a rectangle has the pixels of the frame whose centres lie in it. -/
theorem Bounds.span_has {b : Bounds ℝ} {width height column row : ℕ} (hx : column < width)
    (hy : row < height) :
    (b.span (Scalar.ofNat width) (Scalar.ofNat height)).has (column, row) = true
      ↔ (b.origin.x ≤ column + 1 / 2
          ∧ (column : ℝ) + 1 / 2 < b.origin.x + max b.size.width 0)
        ∧ b.origin.y ≤ row + 1 / 2 ∧ (row : ℝ) + 1 / 2 < b.origin.y + max b.size.height 0 := by
  have hside {edge far : ℝ} {extent x : ℕ} (h : x < extent) :
      (decide (firstPixel edge (Scalar.ofNat extent) ≤ Scalar.ofNat x)
        && decide (Scalar.ofNat x < max (firstPixel edge (Scalar.ofNat extent))
          (firstPixel far (Scalar.ofNat extent)))) = true
      ↔ edge ≤ x + 1 / 2 ∧ (x : ℝ) + 1 / 2 < far := by
    have hnear := firstPixel_le edge h
    have hfar := firstPixel_le far h
    rw [Bool.and_eq_true, decide_eq_true_iff, decide_eq_true_iff, hnear, ← not_le]
    show _ ∧ ¬ max (firstPixel edge (Scalar.ofNat extent)) (firstPixel far (Scalar.ofNat extent))
      ≤ (Scalar.ofNat x : ℝ) ↔ _
    rw [max_le_iff, hnear, hfar, ← not_le]
    tauto
  unfold Span.has Span.hasColumn Span.hasRow Bounds.span
  rw [Bool.and_eq_true, hside hx, hside hy]

/-- A half-open interval that is cut in two: what lies in it lies before the cut or behind it, and
nothing does both. The parts have no negative length, so taking that for zero changes nothing. -/
theorem cut_parts {start extent cut : ℝ} (hcut : cut ∈ Set.Icc start (start + extent)) (v : ℝ) :
    ((start ≤ v ∧ v < start + max extent 0) ↔
        (start ≤ v ∧ v < start + max (cut - start) 0)
          ∨ (cut ≤ v ∧ v < cut + max (start + extent - cut) 0))
      ∧ ¬ ((start ≤ v ∧ v < start + max (cut - start) 0)
        ∧ cut ≤ v ∧ v < cut + max (start + extent - cut) 0) := by
  obtain ⟨hlow, hhigh⟩ := hcut
  rw [max_eq_left (by linarith), max_eq_left (by linarith), max_eq_left (by linarith),
    add_sub_cancel, add_sub_cancel]
  refine ⟨⟨?_, ?_⟩, ?_⟩
  · rintro ⟨hstart, hend⟩
    rcases lt_or_ge v cut with hbefore | hbehind
    · exact .inl ⟨hstart, hbefore⟩
    · exact .inr ⟨hbehind, hend⟩
  · rintro (⟨hstart, hbefore⟩ | ⟨hbehind, hend⟩)
    · exact ⟨hstart, hbefore.trans_le hhigh⟩
    · exact ⟨hlow.trans hbehind, hend⟩
  · rintro ⟨⟨-, hbefore⟩, hbehind, -⟩
    exact hbefore.not_ge hbehind

namespace Bounds

variable {b : Bounds ℝ}

theorem span_leftOf_rightOf {x : ℝ} (hx : x ∈ Set.Icc b.origin.x (b.origin.x + b.size.width))
    (width height : ℕ) :
    (b.span (Scalar.ofNat width) (Scalar.ofNat height)).PartedInto
      ((b.leftOf x).span (Scalar.ofNat width) (Scalar.ofNat height))
      ((b.rightOf x).span (Scalar.ofNat width) (Scalar.ofNat height)) width height := by
  refine Span.partedInto_of_has fun column row hcolumn hrow => ?_
  obtain ⟨heither, hboth⟩ := cut_parts hx (column + 1 / 2)
  rw [span_has hcolumn hrow, span_has hcolumn hrow, span_has hcolumn hrow, heither, or_and_right]
  exact ⟨Iff.rfl, fun ⟨hleft, hright⟩ => hboth ⟨hleft.1, hright.1⟩⟩

theorem span_above_below {y : ℝ} (hy : y ∈ Set.Icc b.origin.y (b.origin.y + b.size.height))
    (width height : ℕ) :
    (b.span (Scalar.ofNat width) (Scalar.ofNat height)).PartedInto
      ((b.above y).span (Scalar.ofNat width) (Scalar.ofNat height))
      ((b.below y).span (Scalar.ofNat width) (Scalar.ofNat height)) width height := by
  refine Span.partedInto_of_has fun column row hcolumn hrow => ?_
  obtain ⟨heither, hboth⟩ := cut_parts hy (row + 1 / 2)
  rw [span_has hcolumn hrow, span_has hcolumn hrow, span_has hcolumn hrow, heither, and_or_left]
  exact ⟨Iff.rfl, fun ⟨habove, hbelow⟩ => hboth ⟨habove.2, hbelow.2⟩⟩

/-- The span of a rectangle, of any size and at any place, is a range of columns and one of rows of
the frame. A pixel of the frame is in both if and only if its centre lies in the rectangle, a
negative side of which is taken for zero. So the spans of the two parts of a cut rectangle part its
own. -/
theorem span_selects_centers (b : Bounds ℝ) (width height : ℕ) :
    let span (b : Bounds ℝ) : Span ℝ := b.span (Scalar.ofNat width) (Scalar.ofNat height)
    ((0 ≤ (span b).x0 ∧ (span b).x0 ≤ (span b).x1 ∧ (span b).x1 ≤ width)
        ∧ 0 ≤ (span b).y0 ∧ (span b).y0 ≤ (span b).y1 ∧ (span b).y1 ≤ height)
      ∧ (∀ column row : ℕ, column < width → row < height →
        (((span b).x0 ≤ column ∧ (column : ℝ) < (span b).x1)
            ∧ (span b).y0 ≤ row ∧ (row : ℝ) < (span b).y1
          ↔ (b.origin.x ≤ column + 1 / 2 ∧ (column : ℝ) + 1 / 2 < b.origin.x + max b.size.width 0)
            ∧ b.origin.y ≤ row + 1 / 2 ∧ (row : ℝ) + 1 / 2 < b.origin.y + max b.size.height 0))
      ∧ (∀ x ∈ Set.Icc b.origin.x (b.origin.x + b.size.width),
        (span b).PartedInto (span (b.leftOf x)) (span (b.rightOf x)) width height)
      ∧ ∀ y ∈ Set.Icc b.origin.y (b.origin.y + b.size.height),
        (span b).PartedInto (span (b.above y)) (span (b.below y)) width height := by
  intro span
  obtain ⟨x0, x1, y0, y1, hcolumns, hx, hrows, hy, hspan⟩ := b.exists_span_eq_between width height
  have hends : (0 ≤ (span b).x0 ∧ (span b).x0 ≤ (span b).x1 ∧ (span b).x1 ≤ width)
      ∧ 0 ≤ (span b).y0 ∧ (span b).y0 ≤ (span b).y1 ∧ (span b).y1 ≤ height := by
    rw [show span b = .between x0 x1 y0 y1 from hspan]
    exact ⟨⟨Nat.cast_nonneg x0, Nat.cast_le.mpr hcolumns, Nat.cast_le.mpr hx⟩,
      Nat.cast_nonneg y0, Nat.cast_le.mpr hrows, Nat.cast_le.mpr hy⟩
  refine ⟨hends, fun column row hcolumn hrow => ?_, fun x hx => span_leftOf_rightOf hx width height,
    fun y hy => span_above_below hy width height⟩
  rw [← span_has hcolumn hrow, Span.has_iff]
  rfl

/-- A rectangle whose sides run through pixel centres, partly outside the frame, cut along the
centres of a column and between those of two rows. -/
theorem span_selects_centers_cut_on_centers :
    let b : Bounds ℝ := .of (-3 / 2) (1 / 2) 4 2
    let span (b : Bounds ℝ) : Span ℝ := b.span (Scalar.ofNat 3) (Scalar.ofNat 3)
    ((0 ≤ (span b).x0 ∧ (span b).x0 ≤ (span b).x1 ∧ (span b).x1 ≤ 3)
        ∧ ((span b).x0 ≤ 0 ∧ (0 : ℝ) < (span b).x1) ∧ (span b).y0 ≤ 0 ∧ (0 : ℝ) < (span b).y1)
      ∧ (1 / 2 ∈ Set.Icc (-3 / 2 : ℝ) (-3 / 2 + 4)
        ∧ (span b).PartedInto (span (b.leftOf (1 / 2))) (span (b.rightOf (1 / 2))) 3 3)
      ∧ 1 ∈ Set.Icc (1 / 2 : ℝ) (1 / 2 + 2)
        ∧ (span b).PartedInto (span (b.above 1)) (span (b.below 1)) 3 3 := by
  intro b span
  have hx : 1 / 2 ∈ Set.Icc (-3 / 2 : ℝ) (-3 / 2 + 4) := by constructor <;> norm_num
  have hy : 1 ∈ Set.Icc (1 / 2 : ℝ) (1 / 2 + 2) := by constructor <;> norm_num
  obtain ⟨⟨hcolumns, -⟩, hpixels, hvertical, hhorizontal⟩ := span_selects_centers b 3 3
  have hfirst := (hpixels 0 0 (by decide) (by decide)).mpr (by norm_num [b, of])
  simp only [Nat.cast_zero, Nat.cast_ofNat] at hfirst hcolumns
  exact ⟨⟨hcolumns, hfirst⟩, ⟨hx, hvertical (1 / 2) hx⟩, hy, hhorizontal 1 hy⟩

end Bounds

end Raster
