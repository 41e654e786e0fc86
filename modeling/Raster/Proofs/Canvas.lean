import Raster.Proofs.Buffer
import Raster.Proofs.Span
import Raster.Renderer

/-!
# Drawing one item

Drawing an item acts on each pixel of the frame alone (`Canvas.pixel_draw`):
a pixel in the span of the item's raster bounds takes the item's colour at
its centre, every other pixel stays. Which numbers the scratch buffer held
before does not enter, because the second phase reads nothing that the
first has not written (`Canvas.Holds`).

`Canvas.draw?` is drawing with every place checked against the buffer that
it addresses. No check ever fails (`Canvas.draw?_eq`). There the pixels of
a span are looked for in the frame. `Canvas.drawLoop?` counts from one end
of the span to the other instead, and checks its places in the same way. In
exact arithmetic none of its checks fails either (`Canvas.drawLoop?_eq`),
and that is because a span ends inside the frame (`Bounds.walk?_span`).
-/

namespace Raster

variable {α : Type} [Scalar α]

/-- What drawing an item makes of one pixel of a `width` by `height` frame. -/
def Item.layOn (ctx : FrameContext α) (width height : Nat) (pixel : Nat × Nat) (below : Rgba α)
    (item : Item α) : Rgba α :=
  let paint := item.paint ctx
  let span := paint.rasterBounds.span (Scalar.ofNat width) (Scalar.ofNat height)
  if span.has pixel then
    (paint.colorAt (pixelCenter pixel)).store.onto ctx.premultipliedAlpha below
  else below

namespace Canvas

/-! ## The scratch buffer -/

theorem le_size_reserve (scratch : Array α) (length : Nat) :
    length ≤ (reserve scratch length).size := by
  unfold reserve
  split
  · simp only [Array.size_replicate]
    exact Nat.le_max_left ..
  · omega

/-- From an offset on, the buffer holds the colours of some pixels, one after the other. -/
def Holds (colorAt : Point α → Rgba α) (scratch : Array α) : List (Nat × Nat) → Nat → Prop
  | [], _ => True
  | pixel :: rest, offset =>
    Buffer.pixel scratch offset = (colorAt (pixelCenter pixel)).store
      ∧ Holds colorAt scratch rest (offset + 4)

@[simp] theorem size_evaluate (colorAt : Point α → Rgba α) (pixels : List (Nat × Nat))
    (offset : Nat) (scratch : Array α) :
    (evaluate colorAt pixels offset scratch).size = scratch.size := by
  induction pixels generalizing offset scratch with
  | nil => rfl
  | cons pixel rest ih => rw [evaluate, ih, Buffer.size_putPixel]

/-- The first phase leaves what lies before its offset as it is. -/
theorem pixel_evaluate_of_lt (colorAt : Point α → Rgba α) (pixels : List (Nat × Nat))
    {offset place : Nat} (scratch : Array α) (h : place + 3 < offset) :
    Buffer.pixel (evaluate colorAt pixels offset scratch) place = Buffer.pixel scratch place := by
  induction pixels generalizing offset scratch with
  | nil => rfl
  | cons pixel rest ih =>
    rw [evaluate, ih _ (by omega), Buffer.pixel_putPixel_of_apart _ _ (by omega)]

theorem holds_evaluate (colorAt : Point α → Rgba α) (pixels : List (Nat × Nat)) (offset : Nat)
    (scratch : Array α) (h : offset + pixels.length * 4 ≤ scratch.size) :
    Holds colorAt (evaluate colorAt pixels offset scratch) pixels offset := by
  induction pixels generalizing offset scratch with
  | nil => trivial
  | cons pixel rest ih =>
    rw [List.length_cons] at h
    rw [evaluate, Holds]
    generalize hc : (colorAt (pixelCenter pixel)).store = c
    constructor
    · rw [pixel_evaluate_of_lt _ _ _ (by omega), Buffer.pixel_putPixel_self _ (by omega) (by omega)]
    · exact ih _ _ (by rw [Buffer.size_putPixel]; omega)

/-! ## The frame -/

@[simp] theorem width_composite (premultiplied : Bool) (scratch : Array α)
    (pixels : List (Nat × Nat)) (offset : Nat) (frame : Frame α) :
    (composite premultiplied scratch pixels offset frame).width = frame.width := by
  induction pixels generalizing offset frame with
  | nil => rfl
  | cons pixel rest ih => rw [composite, ih, Frame.width_compositeAt]

@[simp] theorem height_composite (premultiplied : Bool) (scratch : Array α)
    (pixels : List (Nat × Nat)) (offset : Nat) (frame : Frame α) :
    (composite premultiplied scratch pixels offset frame).height = frame.height := by
  induction pixels generalizing offset frame with
  | nil => rfl
  | cons pixel rest ih => rw [composite, ih, Frame.height_compositeAt]

/-- The second phase does not touch a pixel that it is not given. -/
theorem pixel_composite_of_not_mem (premultiplied : Bool) (scratch : Array α)
    {pixels : List (Nat × Nat)} (offset : Nat) {frame : Frame α} {width column row : Nat}
    (hwidth : frame.width = width) (hin : ∀ pixel ∈ pixels, pixel.1 < width)
    (hx : column < width) (hnot : (column, row) ∉ pixels) :
    (composite premultiplied scratch pixels offset frame).pixel column row
      = frame.pixel column row := by
  induction pixels generalizing offset frame with
  | nil => rfl
  | cons pixel rest ih =>
    subst hwidth
    rw [List.mem_cons, not_or] at hnot
    rw [composite, ih _ (Frame.width_compositeAt ..) (fun p hp => hin p (List.mem_cons_of_mem _ hp))
      hnot.2,
      Frame.pixel_compositeAt_of_ne _ (hin pixel (List.mem_cons_self ..)) hx (Ne.symm hnot.1)]

/-- The second phase lays onto each pixel that it is given the colour of that pixel. -/
theorem pixel_composite_of_mem {colorAt : Point α → Rgba α} (premultiplied : Bool)
    {scratch : Array α} {pixels : List (Nat × Nat)} {offset : Nat} {frame : Frame α}
    {width height column row : Nat} (hwidth : frame.width = width) (hheight : frame.height = height)
    (hholds : Holds colorAt scratch pixels offset) (hnodup : pixels.Nodup)
    (hin : ∀ pixel ∈ pixels, pixel.1 < width) (hx : column < width) (hy : row < height)
    (hmem : (column, row) ∈ pixels) :
    (composite premultiplied scratch pixels offset frame).pixel column row
      = (colorAt (pixelCenter (column, row))).store.onto premultiplied
          (frame.pixel column row) := by
  induction pixels generalizing offset frame with
  | nil => simp at hmem
  | cons pixel rest ih =>
    subst hwidth hheight
    obtain ⟨hhead, hrest⟩ := hholds
    obtain ⟨hnot, hnodup⟩ := List.nodup_cons.mp hnodup
    have hrestin : ∀ p ∈ rest, p.1 < frame.width := fun p hp => hin p (List.mem_cons_of_mem _ hp)
    rw [composite]
    rcases List.mem_cons.mp hmem with rfl | hmem
    · rw [pixel_composite_of_not_mem _ _ _ (Frame.width_compositeAt ..) hrestin hx hnot,
        Frame.pixel_compositeAt_self _ hx hy, hhead]
    · have hne : pixel ≠ (column, row) := fun heq => hnot (heq ▸ hmem)
      rw [ih (Frame.width_compositeAt ..) (Frame.height_compositeAt ..) hrest hnodup hrestin hmem,
        Frame.pixel_compositeAt_of_ne _ (hin pixel (List.mem_cons_self ..)) hx hne]

/-! ## One item -/

/-- Both phases for given pixels. Drawing is this for the span of the raster bounds. -/
def drawOn (ctx : FrameContext α) (colorAt : Point α → Rgba α) (pixels : List (Nat × Nat))
    (canvas : Canvas α) : Canvas α :=
  if pixels.isEmpty then canvas
  else
    let scratch := evaluate colorAt pixels 0 (reserve canvas.scratch (pixels.length * 4))
    ⟨composite ctx.premultipliedAlpha scratch pixels 0 canvas.frame, scratch⟩

theorem draw_eq_drawOn (ctx : FrameContext α) (canvas : Canvas α) (item : Item α) :
    draw ctx canvas item
      = drawOn ctx (item.paint ctx).colorAt
          (((item.paint ctx).rasterBounds.span (Scalar.ofNat canvas.frame.width)
            (Scalar.ofNat canvas.frame.height)).pixels canvas.frame.width canvas.frame.height)
          canvas := rfl

@[simp] theorem width_drawOn (ctx : FrameContext α) (colorAt : Point α → Rgba α)
    (pixels : List (Nat × Nat)) (canvas : Canvas α) :
    (drawOn ctx colorAt pixels canvas).frame.width = canvas.frame.width := by
  unfold drawOn
  split
  · rfl
  · exact width_composite ..

@[simp] theorem height_drawOn (ctx : FrameContext α) (colorAt : Point α → Rgba α)
    (pixels : List (Nat × Nat)) (canvas : Canvas α) :
    (drawOn ctx colorAt pixels canvas).frame.height = canvas.frame.height := by
  unfold drawOn
  split
  · rfl
  · exact height_composite ..

/-- Both phases act on each of the pixels that they are given, and on no other. -/
theorem pixel_drawOn (ctx : FrameContext α) (colorAt : Point α → Rgba α)
    {pixels : List (Nat × Nat)} {canvas : Canvas α} (hnodup : pixels.Nodup)
    (hin : ∀ pixel ∈ pixels, pixel.1 < canvas.frame.width) {column row : Nat}
    (hx : column < canvas.frame.width) (hy : row < canvas.frame.height) :
    (drawOn ctx colorAt pixels canvas).frame.pixel column row
      = if (column, row) ∈ pixels then
          (colorAt (pixelCenter (column, row))).store.onto ctx.premultipliedAlpha
            (canvas.frame.pixel column row)
        else canvas.frame.pixel column row := by
  unfold drawOn
  by_cases hlisted : (column, row) ∈ pixels
  · have hnonempty : ¬ pixels.isEmpty = true := by
      rw [List.isEmpty_iff]
      exact List.ne_nil_of_mem hlisted
    have hroom := le_size_reserve canvas.scratch (pixels.length * 4)
    have hholds := holds_evaluate colorAt pixels 0
      (reserve canvas.scratch (pixels.length * 4)) (by omega)
    rw [if_neg hnonempty, if_pos hlisted]
    exact pixel_composite_of_mem ctx.premultipliedAlpha rfl rfl hholds hnodup hin hx hy hlisted
  · rw [if_neg hlisted]
    split
    · rfl
    · exact pixel_composite_of_not_mem _ _ _ rfl hin hx hlisted

@[simp] theorem width_draw (ctx : FrameContext α) (canvas : Canvas α) (item : Item α) :
    (draw ctx canvas item).frame.width = canvas.frame.width := by
  rw [draw_eq_drawOn, width_drawOn]

@[simp] theorem height_draw (ctx : FrameContext α) (canvas : Canvas α) (item : Item α) :
    (draw ctx canvas item).frame.height = canvas.frame.height := by
  rw [draw_eq_drawOn, height_drawOn]

/-- On the pixels of a span, both phases act on the pixels of the frame that the span has. -/
theorem pixel_drawOn_span (ctx : FrameContext α) (colorAt : Point α → Rgba α) (span : Span α)
    (canvas : Canvas α) {column row : Nat} (hx : column < canvas.frame.width)
    (hy : row < canvas.frame.height) :
    (drawOn ctx colorAt (span.pixels canvas.frame.width canvas.frame.height) canvas).frame.pixel
        column row
      = if span.has (column, row) then
          (colorAt (pixelCenter (column, row))).store.onto ctx.premultipliedAlpha
            (canvas.frame.pixel column row)
        else canvas.frame.pixel column row := by
  have hmem : (column, row) ∈ span.pixels canvas.frame.width canvas.frame.height
      ↔ span.has (column, row) = true := by
    simp only [Span.mem_pixels, hx, hy, true_and]
  rw [pixel_drawOn ctx colorAt (span.nodup_pixels ..)
    (fun pixel hpixel => (Span.mem_pixels.mp hpixel).1) hx hy]
  simp only [hmem]

/-- Drawing an item acts on each pixel alone. -/
theorem pixel_draw (ctx : FrameContext α) (canvas : Canvas α) (item : Item α) {column row : Nat}
    (hx : column < canvas.frame.width) (hy : row < canvas.frame.height) :
    (draw ctx canvas item).frame.pixel column row
      = item.layOn ctx canvas.frame.width canvas.frame.height (column, row)
          (canvas.frame.pixel column row) := by
  rw [draw_eq_drawOn, pixel_drawOn_span ctx (item.paint ctx).colorAt _ canvas hx hy]
  rfl

/-- The frame after an item does not depend on the scratch buffer before it. -/
theorem frame_draw_congr (ctx : FrameContext α) {canvas canvas' : Canvas α}
    (h : canvas.frame = canvas'.frame) (item : Item α) :
    (draw ctx canvas item).frame = (draw ctx canvas' item).frame := by
  refine Frame.ext_pixel (by rw [width_draw, width_draw, h]) (by rw [height_draw, height_draw, h])
    fun column hx row hy => ?_
  rw [width_draw] at hx
  rw [height_draw] at hy
  rw [pixel_draw _ _ _ hx hy, pixel_draw _ _ _ (h ▸ hx) (h ▸ hy), h]

/-! ## Places are inside their buffers -/

/-- The first phase, given up at a place outside the scratch buffer. -/
def evaluate? (colorAt : Point α → Rgba α) :
    List (Nat × Nat) → (offset : Nat) → Array α → Option (Array α)
  | [], _, scratch => some scratch
  | pixel :: rest, offset, scratch =>
    if offset + 3 < scratch.size then
      evaluate? colorAt rest (offset + 4)
        (Buffer.putPixel scratch offset (colorAt (pixelCenter pixel)).store)
    else none

/-- The second phase, given up at a place outside the scratch buffer or outside the frame's. -/
def composite? (premultiplied : Bool) (scratch : Array α) :
    List (Nat × Nat) → (offset : Nat) → Frame α → Option (Frame α)
  | [], _, frame => some frame
  | (column, row) :: rest, offset, frame =>
    if offset + 3 < scratch.size ∧ frame.offset column row + 3 < frame.data.size then
      composite? premultiplied scratch rest (offset + 4)
        (frame.compositeAt (frame.offset column row) (Buffer.pixel scratch offset) premultiplied)
    else none

/-- Draws one item, or nothing at all if a place would lie outside the buffer it addresses. -/
def draw? (ctx : FrameContext α) (canvas : Canvas α) (item : Item α) : Option (Canvas α) :=
  let frame := canvas.frame
  let paint := item.paint ctx
  let span := paint.rasterBounds.span (Scalar.ofNat frame.width) (Scalar.ofNat frame.height)
  let pixels := span.pixels frame.width frame.height
  if pixels.isEmpty then some canvas
  else do
    let scratch ← evaluate? paint.colorAt pixels 0 (reserve canvas.scratch (pixels.length * 4))
    let frame ← composite? ctx.premultipliedAlpha scratch pixels 0 frame
    return ⟨frame, scratch⟩

theorem evaluate?_eq (colorAt : Point α → Rgba α) (pixels : List (Nat × Nat)) (offset : Nat)
    (scratch : Array α) (h : offset + pixels.length * 4 ≤ scratch.size) :
    evaluate? colorAt pixels offset scratch = some (evaluate colorAt pixels offset scratch) := by
  induction pixels generalizing offset scratch with
  | nil => rfl
  | cons pixel rest ih =>
    rw [List.length_cons] at h
    rw [evaluate?, if_pos (by omega), evaluate]
    exact ih _ _ (by rw [Buffer.size_putPixel]; omega)

theorem composite?_eq (premultiplied : Bool) {scratch : Array α} {pixels : List (Nat × Nat)}
    {offset : Nat} {frame : Frame α} {width height : Nat} (hwidth : frame.width = width)
    (hheight : frame.height = height) (h : offset + pixels.length * 4 ≤ scratch.size)
    (hin : ∀ pixel ∈ pixels, pixel.1 < width ∧ pixel.2 < height) :
    composite? premultiplied scratch pixels offset frame
      = some (composite premultiplied scratch pixels offset frame) := by
  induction pixels generalizing offset frame with
  | nil => rfl
  | cons pixel rest ih =>
    subst hwidth hheight
    obtain ⟨hx, hy⟩ := hin pixel (List.mem_cons_self ..)
    rw [List.length_cons] at h
    rw [composite?, if_pos ⟨by omega, frame.offset_lt hx hy⟩, composite]
    exact ih (Frame.width_compositeAt ..) (Frame.height_compositeAt ..) (by omega)
      fun p hp => hin p (List.mem_cons_of_mem _ hp)

/-- `drawOn` with every place checked. -/
def drawOn? (ctx : FrameContext α) (colorAt : Point α → Rgba α) (pixels : List (Nat × Nat))
    (canvas : Canvas α) : Option (Canvas α) :=
  if pixels.isEmpty then some canvas
  else do
    let scratch ← evaluate? colorAt pixels 0 (reserve canvas.scratch (pixels.length * 4))
    let frame ← composite? ctx.premultipliedAlpha scratch pixels 0 canvas.frame
    return ⟨frame, scratch⟩

theorem drawOn?_eq (ctx : FrameContext α) (colorAt : Point α → Rgba α)
    {pixels : List (Nat × Nat)} {canvas : Canvas α}
    (hin : ∀ pixel ∈ pixels, pixel.1 < canvas.frame.width ∧ pixel.2 < canvas.frame.height) :
    drawOn? ctx colorAt pixels canvas = some (drawOn ctx colorAt pixels canvas) := by
  have hroom := le_size_reserve canvas.scratch (pixels.length * 4)
  unfold drawOn? drawOn
  split
  · rfl
  · rw [evaluate?_eq _ _ _ _ (by omega), Option.bind_eq_bind, Option.bind_some,
      composite?_eq _ rfl rfl (by rw [size_evaluate]; omega) hin]
    rfl

/-- On the pixels of a span. -/
theorem drawOn?_span (ctx : FrameContext α) (colorAt : Point α → Rgba α) (span : Span α)
    (canvas : Canvas α) :
    drawOn? ctx colorAt (span.pixels canvas.frame.width canvas.frame.height) canvas
      = some (drawOn ctx colorAt (span.pixels canvas.frame.width canvas.frame.height) canvas) :=
  drawOn?_eq ctx colorAt fun _ hpixel =>
    ⟨(Span.mem_pixels.mp hpixel).1, (Span.mem_pixels.mp hpixel).2.1⟩

/-- Every place that drawing addresses is inside its buffer. -/
theorem draw?_eq (ctx : FrameContext α) (canvas : Canvas α) (item : Item α) :
    draw? ctx canvas item = some (draw ctx canvas item) := by
  rw [draw_eq_drawOn]
  exact drawOn?_span ctx (item.paint ctx).colorAt _ canvas

/-- Draws one item by loops over its span that do not look at the frame, of so many steps at most.
Every place is checked. -/
def drawLoop? (ctx : FrameContext α) (steps : Nat) (canvas : Canvas α) (item : Item α) :
    Option (Canvas α) := do
  let frame := canvas.frame
  let paint := item.paint ctx
  let span := paint.rasterBounds.span (Scalar.ofNat frame.width) (Scalar.ofNat frame.height)
  let pixels ← span.walk? steps
  drawOn? ctx paint.colorAt pixels canvas

/-- The loops draw what is drawn, and every place that they come to is inside its buffer. -/
theorem drawLoop?_eq (ctx : FrameContext ℝ) {steps : ℕ} {canvas : Canvas ℝ}
    (hwidth : canvas.frame.width ≤ steps) (hheight : canvas.frame.height ≤ steps)
    (item : Item ℝ) : drawLoop? ctx steps canvas item = some (draw ctx canvas item) := by
  obtain ⟨hwalk, -⟩ := (item.paint ctx).rasterBounds.walk?_span hwidth hheight
  unfold drawLoop?
  dsimp only
  rw [hwalk, draw_eq_drawOn]
  exact drawOn?_span ctx (item.paint ctx).colorAt _ canvas

/-! ## A run of items -/

@[simp] theorem width_foldl_draw (ctx : FrameContext α) (items : List (Item α))
    (canvas : Canvas α) :
    (items.foldl (draw ctx) canvas).frame.width = canvas.frame.width := by
  induction items generalizing canvas with
  | nil => rfl
  | cons item rest ih => rw [List.foldl_cons, ih, width_draw]

@[simp] theorem height_foldl_draw (ctx : FrameContext α) (items : List (Item α))
    (canvas : Canvas α) :
    (items.foldl (draw ctx) canvas).frame.height = canvas.frame.height := by
  induction items generalizing canvas with
  | nil => rfl
  | cons item rest ih => rw [List.foldl_cons, ih, height_draw]

/-- A run of items acts on each pixel alone, one item after the other. -/
theorem pixel_foldl_draw (ctx : FrameContext α) (items : List (Item α)) (canvas : Canvas α)
    {column row : Nat} (hx : column < canvas.frame.width) (hy : row < canvas.frame.height) :
    (items.foldl (draw ctx) canvas).frame.pixel column row
      = items.foldl (Item.layOn ctx canvas.frame.width canvas.frame.height (column, row))
          (canvas.frame.pixel column row) := by
  induction items generalizing canvas with
  | nil => rfl
  | cons item rest ih =>
    have hx' : column < (draw ctx canvas item).frame.width := by rwa [width_draw]
    have hy' : row < (draw ctx canvas item).frame.height := by rwa [height_draw]
    rw [List.foldl_cons, ih _ hx' hy', width_draw, height_draw, pixel_draw _ _ _ hx hy,
      List.foldl_cons]

/-- No place of a whole run is outside its buffer. -/
theorem foldlM_draw?_eq (ctx : FrameContext α) (items : List (Item α)) (canvas : Canvas α) :
    items.foldlM (draw? ctx) canvas = some (items.foldl (draw ctx) canvas) := by
  induction items generalizing canvas with
  | nil => rfl
  | cons item rest ih =>
    rw [List.foldlM_cons, draw?_eq, Option.bind_eq_bind, Option.bind_some, ih, List.foldl_cons]

theorem foldlM_drawLoop?_eq (ctx : FrameContext ℝ) {steps : ℕ} (items : List (Item ℝ))
    {canvas : Canvas ℝ} (hwidth : canvas.frame.width ≤ steps)
    (hheight : canvas.frame.height ≤ steps) :
    items.foldlM (drawLoop? ctx steps) canvas = some (items.foldl (draw ctx) canvas) := by
  induction items generalizing canvas with
  | nil => rfl
  | cons item rest ih =>
    rw [List.foldlM_cons, drawLoop?_eq ctx hwidth hheight, Option.bind_eq_bind, Option.bind_some,
      ih (by rwa [width_draw]) (by rwa [height_draw]), List.foldl_cons]

end Canvas

end Raster
