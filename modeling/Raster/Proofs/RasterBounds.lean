import Raster.Scalar.Real
import Raster.Proofs.ActualSize
import Raster.Proofs.Clipping
import Raster.Proofs.FillRule

/-!
# Raster bounds

Drawing asks an item for its colours in its raster bounds only. For the
items that are `Item.isTight` nothing is lost by that: outside their raster
bounds they are transparent (`Item.colorAt_of_outside`), so asking them at
every pixel of the frame gives the same frame (`raster_bounds_lose_nothing`).

A span has the pixels whose centres are in a rectangle without its far
sides. Plain quads, underlines and polychrome sprites test their points
against the same half-open rectangle. Triangles test theirs against three
edges, some of which admit the points on them. What the fill rule admits is
inside the triangle after a small step to the right and down, and a point
that such a step takes into a closed rectangle is not on its far sides
(`Bounds.contains_of_eventually_nudge`).

Rounded quads and shadows are not among these items: half of an outer ramp
and the tail of a blur lie outside their raster bounds.
-/

namespace Raster

open Filter Topology

theorem minExtent_pos : (0 : ℝ) < minExtent := by
  show (0 : ℝ) < 1e-6
  norm_num

/-! ## Rectangles -/

namespace Bounds

theorem contains_iff {b : Bounds ℝ} {p : Point ℝ} :
    b.contains p = true
      ↔ (b.origin.x ≤ p.x ∧ p.x < b.origin.x + b.size.width)
        ∧ b.origin.y ≤ p.y ∧ p.y < b.origin.y + b.size.height := by
  simp only [contains, Bool.and_eq_true, decide_eq_true_iff, and_assoc]

/-- The span of a rectangle has the pixels of the frame whose centres the rectangle contains: none
for a negative side, which is taken for zero. -/
theorem span_has_iff_contains {b : Bounds ℝ} {width height column row : ℕ} (hx : column < width)
    (hy : row < height) :
    (b.span (Scalar.ofNat width) (Scalar.ofNat height)).has (column, row) = true
      ↔ b.contains (pixelCenter (column, row)) = true := by
  have hside (start extent x : ℝ) :
      (start ≤ x ∧ x < start + max extent 0) ↔ start ≤ x ∧ x < start + extent := by
    refine and_congr_right fun hstart => ?_
    rcases le_total 0 extent with hextent | hextent
    · rw [max_eq_left hextent]
    · rw [max_eq_right hextent, add_zero]
      exact iff_of_false hstart.not_gt fun h => hstart.not_gt (h.trans_le (by linarith))
  rw [span_has hx hy, hside, hside, pixelCenter_eq, contains_iff]

/-- The preimage of the unit square is the rectangle with its sides made `minExtent` long at
least. -/
theorem inUnitSquare_toUnit_iff {b : Bounds ℝ} {p : Point ℝ} :
    (b.toUnit p).inUnitSquare = true
      ↔ (b.origin.x ≤ p.x ∧ p.x < b.origin.x + max b.size.width minExtent)
        ∧ b.origin.y ≤ p.y ∧ p.y < b.origin.y + max b.size.height minExtent := by
  have hside (extent start x : ℝ) :
      (0 ≤ (x - start) / max extent minExtent ∧ (x - start) / max extent minExtent < 1)
        ↔ start ≤ x ∧ x < start + max extent minExtent := by
    have hpositive : 0 < max extent minExtent := minExtent_pos.trans_le (le_max_right ..)
    rw [div_lt_one hpositive, le_div_iff₀ hpositive, zero_mul, sub_nonneg, sub_lt_iff_lt_add']
  rw [← hside, ← hside]
  simp only [Point.inUnitSquare, Bool.and_eq_true, decide_eq_true_iff, and_assoc]
  exact Iff.rfl

/-- A rectangle that is not too small to be divided by is the preimage of the unit square. -/
theorem inUnitSquare_toUnit {b : Bounds ℝ} (hwidth : minExtent ≤ b.size.width)
    (hheight : minExtent ≤ b.size.height) (p : Point ℝ) :
    (b.toUnit p).inUnitSquare = b.contains p := by
  rw [Bool.eq_iff_iff, inUnitSquare_toUnit_iff, contains_iff, max_eq_left hwidth,
    max_eq_left hheight]

/-! ## The hull of some points -/

/-- Membership of a rectangle with all its sides. -/
def Closed (b : Bounds ℝ) (p : Point ℝ) : Prop :=
  (b.origin.x ≤ p.x ∧ p.x ≤ b.origin.x + b.size.width)
    ∧ b.origin.y ≤ p.y ∧ p.y ≤ b.origin.y + b.size.height

theorem le_foldl_min_iff {f : Point ℝ → ℝ} {ps : List (Point ℝ)} {m x : ℝ} :
    x ≤ ps.foldl (fun m q => min m (f q)) m ↔ x ≤ m ∧ ∀ q ∈ ps, x ≤ f q := by
  induction ps generalizing m with
  | nil => simp
  | cons p ps ih => rw [List.foldl_cons, ih, le_min_iff, List.forall_mem_cons, and_assoc]

theorem foldl_max_le_iff {f : Point ℝ → ℝ} {ps : List (Point ℝ)} {m x : ℝ} :
    ps.foldl (fun m q => max m (f q)) m ≤ x ↔ m ≤ x ∧ ∀ q ∈ ps, f q ≤ x := by
  induction ps generalizing m with
  | nil => simp
  | cons p ps ih => rw [List.foldl_cons, ih, max_le_iff, List.forall_mem_cons, and_assoc]

/-- The hull has all of its points. -/
theorem closed_hull {points : List (Point ℝ)} {q : Point ℝ} (h : q ∈ points) :
    (hull points).Closed q := by
  cases points with
  | nil => cases h
  | cons p ps =>
    have hlow (f : Point ℝ → ℝ) : ps.foldl (fun m q => min m (f q)) (f p) ≤ f q := by
      obtain ⟨hfirst, hrest⟩ := le_foldl_min_iff.mp
        (le_refl (ps.foldl (fun m q => min m (f q)) (f p)))
      rcases List.mem_cons.mp h with rfl | hq
      · exact hfirst
      · exact hrest q hq
    have hhigh (f : Point ℝ → ℝ) : f q ≤ ps.foldl (fun m q => max m (f q)) (f p) := by
      obtain ⟨hfirst, hrest⟩ := foldl_max_le_iff.mp
        (le_refl (ps.foldl (fun m q => max m (f q)) (f p)))
      rcases List.mem_cons.mp h with rfl | hq
      · exact hfirst
      · exact hrest q hq
    simp only [Closed, hull, of, add_sub_cancel]
    exact ⟨⟨hlow Point.x, hhigh Point.x⟩, hlow Point.y, hhigh Point.y⟩

/-- The hull reaches no further to the right than all of its points. -/
theorem hull_right_le {points : List (Point ℝ)} (hne : points ≠ []) {x : ℝ}
    (h : ∀ q ∈ points, q.x ≤ x) : (hull points).origin.x + (hull points).size.width ≤ x := by
  cases points with
  | nil => exact absurd rfl hne
  | cons p ps =>
    simp only [hull, of, add_sub_cancel]
    exact foldl_max_le_iff.mpr (List.forall_mem_cons.mp h)

theorem hull_bottom_le {points : List (Point ℝ)} (hne : points ≠ []) {y : ℝ}
    (h : ∀ q ∈ points, q.y ≤ y) : (hull points).origin.y + (hull points).size.height ≤ y := by
  cases points with
  | nil => exact absurd rfl hne
  | cons p ps =>
    simp only [hull, of, add_sub_cancel]
    exact foldl_max_le_iff.mpr (List.forall_mem_cons.mp h)

/-- A rectangle that has the corners of a triangle has what is inside of it. -/
theorem Closed.weightedMean {b : Bounds ℝ} {p q r : Point ℝ} (hp : b.Closed p) (hq : b.Closed q)
    (hr : b.Closed r) {u v w : ℝ} (hu : 0 ≤ u) (hv : 0 ≤ v) (hw : 0 ≤ w) (hsum : u + v + w = 1) :
    b.Closed (weightedMean u v w p q r) := by
  have hmean {low high x y z : ℝ} (hx : low ≤ x ∧ x ≤ high) (hy : low ≤ y ∧ y ≤ high)
      (hz : low ≤ z ∧ z ≤ high) :
      low ≤ u * x + v * y + w * z ∧ u * x + v * y + w * z ≤ high := by
    constructor
    · calc low = u * low + v * low + w * low := by rw [← add_mul, ← add_mul, hsum, one_mul]
        _ ≤ u * x + v * y + w * z := by gcongr <;> tauto
    · calc u * x + v * y + w * z ≤ u * high + v * high + w * high := by gcongr <;> tauto
        _ = high := by rw [← add_mul, ← add_mul, hsum, one_mul]
  exact ⟨hmean hp.1 hq.1 hr.1, hmean hp.2 hq.2 hr.2⟩

/-- A point that every small enough step to the right and down takes into a rectangle is in the
rectangle, and not on its far sides. -/
theorem contains_of_eventually_nudge {b : Bounds ℝ} {p : Point ℝ}
    (h : ∀ᶠ ε in 𝓝[>] (0 : ℝ), b.Closed (p.nudge ε)) : b.contains p = true := by
  rw [contains_iff]
  have hback {x low : ℝ} {f : ℝ → ℝ} (hf : Continuous f) (hzero : f 0 = x)
      (hlow : ∀ᶠ ε in 𝓝[>] (0 : ℝ), low ≤ f ε) : low ≤ x := by
    refine ge_of_tendsto (hf.tendsto' 0 x hzero |>.mono_left nhdsWithin_le_nhds) hlow
  obtain ⟨ε, hclosed, hstep⟩ := (h.and self_mem_nhdsWithin).exists
  have hpositive : 0 < ε := hstep
  refine ⟨⟨?_, ?_⟩, ?_, ?_⟩
  · exact hback (f := fun ε => p.x + ε) (by fun_prop) (add_zero _) (h.mono fun _ hε => hε.1.1)
  · exact (lt_add_of_pos_right p.x hpositive).trans_le hclosed.1.2
  · exact hback (f := fun ε => p.y + ε ^ 2) (by fun_prop) (by ring) (h.mono fun _ hε => hε.2.1)
  · exact (lt_add_of_pos_right p.y (pow_pos hpositive 2)).trans_le hclosed.2.2

end Bounds

namespace Triangle

/-- The hull of a triangle contains every point that the triangle has, and keeps its far sides
free of them. -/
theorem hull_contains_of_covers {t : Triangle ℝ} {p : Point ℝ} (h : t.covers p = true) :
    (Bounds.hull [t.a.position, t.b.position, t.c.position]).contains p = true := by
  have hcross : t.cross ≠ 0 := by
    intro hzero
    rw [covers, varying, if_pos (Scalar.beq_iff_eq.mpr hzero)] at h
    cases h
  refine Bounds.contains_of_eventually_nudge ?_
  filter_upwards [eventually_covers hcross p] with ε hiff
  obtain ⟨u, v, w, ⟨hu, hv, hw⟩, hsum, hmean⟩ := hiff.mp h
  rw [hmean]
  exact (Bounds.closed_hull (by simp)).weightedMean (Bounds.closed_hull (by simp))
    (Bounds.closed_hull (by simp)) hu.le hv.le hw.le hsum

theorem shade_of_not_covers {t : Triangle ℝ} {p : Point ℝ} (h : t.covers p = false)
    (ctx : FrameContext ℝ) : t.shade p ctx = Rgba.transparent := by
  rw [covers] at h
  rw [shade, project, evaluate]
  cases hedges : t.varying.edges with
  | none => rfl
  | some edges =>
    rw [hedges, Option.any_some] at h
    dsimp only
    rw [h]
    rfl

end Triangle

/-! ## Items -/

/-- The items that are transparent outside their raster bounds. -/
def Item.isTight {α : Type} [Scalar α] : Item α → Bool
  | quad q => q.isPlain
  | polychromeSprite s => minExtent ≤ s.bounds.size.width && minExtent ≤ s.bounds.size.height
  | triangle _ => true
  | underline _ => true
  | shadow _ => false
  | monochromeSprite _ => false

theorem Quad.shade_of_not_contains {q : Quad ℝ} (hplain : q.isPlain = true) {p : Point ℝ}
    (h : q.bounds.contains p = false) (ctx : FrameContext ℝ) :
    q.shade p ctx = Rgba.transparent := by
  rw [shade, project, evaluate]
  dsimp only
  rw [hplain, h]
  exact ite_self _

theorem Underline.shade_of_not_contains {u : Underline ℝ} {p : Point ℝ}
    (h : u.band.contains p = false) (ctx : FrameContext ℝ) :
    u.shade p ctx = Rgba.transparent := by
  rw [shade, project, evaluate]
  dsimp only
  rw [h, Bool.not_false, Bool.or_true, if_pos rfl]

theorem PolychromeSprite.shade_of_not_contains {s : PolychromeSprite ℝ}
    (hwidth : minExtent ≤ s.bounds.size.width) (hheight : minExtent ≤ s.bounds.size.height)
    {p : Point ℝ} (h : s.bounds.contains p = false) (ctx : FrameContext ℝ) :
    s.shade p ctx = Rgba.transparent := by
  rw [shade, project, evaluate]
  dsimp only
  cases s.tile.bind ctx.atlas with
  | none => rfl
  | some texture =>
    dsimp only
    rw [Bounds.inUnitSquare_toUnit hwidth hheight, h, Bool.not_false, Bool.true_or, if_pos rfl]

namespace Item

/-- At a point that the raster bounds do not contain, a tight item is transparent. -/
theorem colorAt_of_not_contains {item : Item ℝ} (htight : item.isTight = true)
    {ctx : FrameContext ℝ} {p : Point ℝ} (h : (item.paint ctx).rasterBounds.contains p = false) :
    (item.paint ctx).colorAt p = Rgba.transparent := by
  cases item with
  | quad q => exact q.shade_of_not_contains htight h ctx
  | polychromeSprite s =>
    obtain ⟨hwidth, hheight⟩ := Bool.and_eq_true .. ▸ htight
    exact s.shade_of_not_contains (of_decide_eq_true hwidth) (of_decide_eq_true hheight) h ctx
  | triangle t =>
    refine t.shade_of_not_covers (Bool.eq_false_iff.mpr fun hcovers => ?_) ctx
    exact Bool.eq_false_iff.mp h (Triangle.hull_contains_of_covers hcovers)
  | underline u => exact u.shade_of_not_contains h ctx
  | shadow s => cases htight
  | monochromeSprite s => cases htight

/-- At the centre of a pixel that is not in the span of the raster bounds, a tight item is
transparent. -/
theorem colorAt_of_outside {item : Item ℝ} (htight : item.isTight = true) {ctx : FrameContext ℝ}
    {width height column row : ℕ} (hx : column < width) (hy : row < height)
    (hout : ((item.paint ctx).rasterBounds.span (Scalar.ofNat width) (Scalar.ofNat height)).has
      (column, row) = false) :
    (item.paint ctx).colorAt (pixelCenter (column, row)) = Rgba.transparent := by
  refine colorAt_of_not_contains htight (Bool.eq_false_iff.mpr fun hcontains => ?_)
  exact Bool.eq_false_iff.mp hout ((Bounds.span_has_iff_contains hx hy).mpr hcontains)

end Item

/-! ## Walking the whole frame -/

/-- All columns and rows of a frame. -/
def Span.whole {α : Type} [Scalar α] (width height : Nat) : Span α :=
  ⟨0, Scalar.ofNat width, 0, Scalar.ofNat height⟩

theorem Span.whole_has {width height column row : ℕ} (hx : column < width) (hy : row < height) :
    (whole width height : Span ℝ).has (column, row) = true := by
  have hside {i extent : ℕ} (h : i < extent) :
      (decide ((0 : ℝ) ≤ Scalar.ofNat i) && decide ((Scalar.ofNat i : ℝ) < Scalar.ofNat extent))
        = true := by
    rw [Bool.and_eq_true, decide_eq_true_iff, decide_eq_true_iff]
    exact ⟨Nat.cast_nonneg i, Nat.cast_lt.mpr h⟩
  rw [has, Bool.and_eq_true]
  exact ⟨hside hx, hside hy⟩

namespace Canvas

/-- Draws an item by asking for its colour at every pixel of the frame. -/
def drawWhole {α : Type} [Scalar α] (ctx : FrameContext α) (canvas : Canvas α) (item : Item α) :
    Canvas α :=
  drawOn ctx (item.paint ctx).colorAt
    ((Span.whole canvas.frame.width canvas.frame.height : Span α).pixels canvas.frame.width
      canvas.frame.height)
    canvas

/-- Draws tight items without their raster bounds, and all others in them. -/
def drawFreely {α : Type} [Scalar α] (ctx : FrameContext α) (canvas : Canvas α) (item : Item α) :
    Canvas α :=
  if item.isTight then drawWhole ctx canvas item else draw ctx canvas item

theorem pixel_drawWhole (ctx : FrameContext ℝ) (canvas : Canvas ℝ) (item : Item ℝ)
    {column row : ℕ} (hx : column < canvas.frame.width) (hy : row < canvas.frame.height) :
    (drawWhole ctx canvas item).frame.pixel column row
      = ((item.paint ctx).colorAt (pixelCenter (column, row))).store.onto ctx.premultipliedAlpha
          (canvas.frame.pixel column row) := by
  rw [drawWhole, pixel_drawOn_span ctx _ _ canvas hx hy, if_pos (Span.whole_has hx hy)]

/-- For a tight item it makes no difference to the frame which pixels are asked for, as long as
those of its raster bounds are among them. -/
theorem frame_drawWhole {item : Item ℝ} (htight : item.isTight = true) (ctx : FrameContext ℝ)
    (canvas : Canvas ℝ) : (drawWhole ctx canvas item).frame = (draw ctx canvas item).frame := by
  have hwidth : (drawWhole ctx canvas item).frame.width = canvas.frame.width := width_drawOn ..
  have hheight : (drawWhole ctx canvas item).frame.height = canvas.frame.height :=
    height_drawOn ..
  refine Frame.ext_pixel (hwidth.trans (width_draw ..).symm) (hheight.trans (height_draw ..).symm)
    fun column hx row hy => ?_
  rw [hwidth] at hx
  rw [hheight] at hy
  rw [pixel_drawWhole _ _ _ hx hy, pixel_draw _ _ _ hx hy, Item.layOn]
  split
  · rfl
  next hout =>
    rw [Item.colorAt_of_outside htight hx hy (Bool.eq_false_iff.mpr hout)]
    exact Rgba.transparent_onto (le_refl 0) _ _

theorem frame_drawFreely (ctx : FrameContext ℝ) (canvas : Canvas ℝ) (item : Item ℝ) :
    (drawFreely ctx canvas item).frame = (draw ctx canvas item).frame := by
  unfold drawFreely
  split
  next htight => exact frame_drawWhole htight ctx canvas
  · rfl

theorem frame_foldl_drawFreely (ctx : FrameContext ℝ) (items : List (Item ℝ))
    {canvas canvas' : Canvas ℝ} (h : canvas.frame = canvas'.frame) :
    (items.foldl (drawFreely ctx) canvas).frame = (items.foldl (draw ctx) canvas').frame := by
  induction items generalizing canvas canvas' with
  | nil => exact h
  | cons item rest ih =>
    refine ih ?_
    exact (frame_drawFreely ctx canvas item).trans (frame_draw_congr ctx h item)

end Canvas

/-- Raster bounds lose nothing. A plain quad, a triangle, an underline and a polychrome sprite that
is not too small are transparent at the centre of every pixel of the frame that is not in the span
of their raster bounds, and a run of items in which they are asked for their colour at every pixel
of the frame leaves the same frame. -/
theorem raster_bounds_lose_nothing :
    (∀ (item : Item ℝ) (ctx : FrameContext ℝ) (width height column row : ℕ),
      item.isTight = true → column < width → row < height →
      ((item.paint ctx).rasterBounds.span (Scalar.ofNat width) (Scalar.ofNat height)).has
        (column, row) = false →
      (item.paint ctx).colorAt (pixelCenter (column, row)) = Rgba.transparent)
    ∧ ∀ (ctx : FrameContext ℝ) (canvas : Canvas ℝ) (items : List (Item ℝ)),
      (items.foldl (Canvas.drawFreely ctx) canvas).frame
        = (items.foldl (Canvas.draw ctx) canvas).frame :=
  ⟨fun _ _ _ _ _ _ htight hx hy hout => Item.colorAt_of_outside htight hx hy hout,
    fun ctx _ items => Canvas.frame_foldl_drawFreely ctx items rfl⟩

/-- A triangle with corners at pixel centres, one of them on the far side of its hull. -/
theorem raster_bounds_lose_nothing_at_far_corner :
    let item : Item ℝ := .triangle (.ofCorners ⟨1 / 2, 1 / 2⟩ ⟨5 / 2, 1 / 2⟩ ⟨1 / 2, 5 / 2⟩)
    let ctx : FrameContext ℝ := ⟨⟨3, 3⟩, true, 4, false, none⟩
    let canvas : Canvas ℝ := ⟨Frame.blank 3 3, #[]⟩
    ((item.paint ctx).rasterBounds.span (Scalar.ofNat 3) (Scalar.ofNat 3)).has (2, 0) = false
      ∧ (item.paint ctx).colorAt (pixelCenter (2, 0)) = Rgba.transparent
      ∧ (Canvas.drawWhole ctx canvas item).frame = (Canvas.draw ctx canvas item).frame := by
  intro item ctx canvas
  have hhull : (item.paint ctx).rasterBounds = .of (1 / 2) (1 / 2) 2 2 := by
    show Bounds.hull [⟨1 / 2, 1 / 2⟩, ⟨5 / 2, 1 / 2⟩, ⟨1 / 2, 5 / 2⟩] = _
    norm_num [Bounds.hull]
  have hout : ((item.paint ctx).rasterBounds.span (Scalar.ofNat 3) (Scalar.ofNat 3)).has (2, 0)
      = false := by
    rw [hhull, Bool.eq_false_iff, ne_eq, Bounds.span_has (by decide) (by decide)]
    norm_num [Bounds.of]
  obtain ⟨hcolor, hframe⟩ := raster_bounds_lose_nothing
  exact ⟨hout, hcolor item ctx 3 3 2 0 rfl (by decide) (by decide) hout,
    hframe ctx canvas [item]⟩

end Raster
