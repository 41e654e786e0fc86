import Raster.Scalar.Real
import Raster.Proofs.ColorRange
import Raster.Proofs.Renderer

/-!
# Frames hold premultiplied colours

A draw takes a frame from the clear colour to the finished picture, one
contribution at one pixel after the other. `Renderer.frames` lists the
frames on the way. In exact arithmetic all of them are valid, that is,
every pixel of each holds a premultiplied colour (`Frame.Valid`), as long
as the clear colour and the colours of the batches are in range and there
are no blurs (`Renderer.draw_valid`).

One contribution keeps a frame valid because it fits
(`Frame.Valid.compositeAt`). Contributions fit because the second phase of
an item reads what the first has written (`Canvas.Holds`), and an item in
range gives no others (`Item.colorAt_fits`).
-/

namespace Raster

/-! ## The frames on the way -/

section
variable {α : Type} [Scalar α]

namespace Canvas

/-- The frames that the second phase goes through, one after each contribution. -/
def compositeFrames (premultiplied : Bool) (scratch : Array α) :
    List (Nat × Nat) → (offset : Nat) → Frame α → List (Frame α)
  | [], _, _ => []
  | (column, row) :: rest, offset, frame =>
    let next :=
      frame.compositeAt (frame.offset column row) (Buffer.pixel scratch offset) premultiplied
    next :: compositeFrames premultiplied scratch rest (offset + 4) next

/-- The frames that drawing an item goes through. -/
def drawFrames (ctx : FrameContext α) (canvas : Canvas α) (item : Item α) : List (Frame α) :=
  let frame := canvas.frame
  let paint := item.paint ctx
  let span := paint.rasterBounds.span (Scalar.ofNat frame.width) (Scalar.ofNat frame.height)
  let pixels := span.pixels frame.width frame.height
  let scratch := evaluate paint.colorAt pixels 0 (reserve canvas.scratch (pixels.length * 4))
  compositeFrames ctx.premultipliedAlpha scratch pixels 0 frame

/-- The frames that drawing a list of items goes through. -/
def runFrames (ctx : FrameContext α) : List (Item α) → Canvas α → List (Frame α)
  | [], _ => []
  | item :: rest, canvas => drawFrames ctx canvas item ++ runFrames ctx rest (draw ctx canvas item)

end Canvas

/-- The frames that a draw goes through after the first, which is cleared. -/
def Renderer.frames (r : Renderer α) (atlas : Option (Atlas α)) (batches : List (Batch α))
    (frame : Frame α) : List (Frame α) :=
  Canvas.runFrames (r.options.context atlas) (Batch.items r.options atlas batches)
    ⟨frame.clear r.options.clearColor, r.scratch⟩

end

namespace Frame

/-! ## One contribution -/

/-- Every pixel holds a premultiplied colour. -/
def Valid (f : Frame ℝ) : Prop :=
  ∀ column < f.width, ∀ row < f.height, (f.pixel column row).Valid

/-- The second frame is the first with a contribution that fits laid onto one of its pixels. -/
def Laid (premultiplied : Bool) (f g : Frame ℝ) : Prop :=
  ∃ column < f.width, ∃ row < f.height, ∃ c : Rgba ℝ, c.Fits premultiplied
    ∧ g = f.compositeAt (f.offset column row) c premultiplied

/-- From one frame through the listed ones to another, a contribution at a time. -/
inductive Passes (premultiplied : Bool) : Frame ℝ → List (Frame ℝ) → Frame ℝ → Prop
  | stay (f : Frame ℝ) : Passes premultiplied f [] f
  | lay {f g h : Frame ℝ} {gs : List (Frame ℝ)} (step : Laid premultiplied f g)
      (rest : Passes premultiplied g gs h) : Passes premultiplied f (g :: gs) h

theorem Passes.trans {premultiplied : Bool} {f g h : Frame ℝ} {gs hs : List (Frame ℝ)}
    (hfirst : Passes premultiplied f gs g) (hlast : Passes premultiplied g hs h) :
    Passes premultiplied f (gs ++ hs) h := by
  induction hfirst with
  | stay f => exact hlast
  | lay step _ ih => exact .lay step (ih hlast)

theorem valid_clear (f : Frame ℝ) {c : Rgba ℝ} (hc : c.InRange) : (f.clear c).Valid := by
  intro column hx row hy
  rw [pixel_clear f c hx hy]
  exact hc.premultiply

theorem Valid.compositeAt {f : Frame ℝ} (hf : f.Valid) {column row : Nat} (hx : column < f.width)
    (hy : row < f.height) {c : Rgba ℝ} {premultiplied : Bool} (hc : c.Fits premultiplied) :
    (f.compositeAt (f.offset column row) c premultiplied).Valid := by
  intro column' hx' row' hy'
  by_cases heq : (column, row) = (column', row')
  · cases heq
    rw [pixel_compositeAt_self f hx hy]
    exact Rgba.onto_valid hc (hf column hx row hy)
  · rw [pixel_compositeAt_of_ne f hx hx' heq]
    exact hf column' hx' row' hy'

/-- Validity is kept all the way. -/
theorem Valid.of_passes {premultiplied : Bool} {f h : Frame ℝ} {gs : List (Frame ℝ)}
    (hf : f.Valid) (hpasses : Passes premultiplied f gs h) : ∀ g ∈ f :: gs, g.Valid := by
  induction hpasses with
  | stay f => exact List.forall_mem_singleton.mpr hf
  | lay step _ ih =>
    obtain ⟨column, hx, row, hy, c, hc, rfl⟩ := step
    exact List.forall_mem_cons.mpr ⟨hf, ih (hf.compositeAt hx hy hc)⟩

end Frame

namespace Canvas

/-! ## Drawing -/

/-- The second phase lays on what the first has written. -/
theorem passes_composite {colorAt : Point ℝ → Rgba ℝ} {premultiplied : Bool}
    (hfits : ∀ p, (colorAt p).Fits premultiplied) {scratch : Array ℝ} {pixels : List (Nat × Nat)}
    {offset : Nat} {frame : Frame ℝ} {width height : Nat} (hwidth : frame.width = width)
    (hheight : frame.height = height) (hholds : Holds colorAt scratch pixels offset)
    (hin : ∀ pixel ∈ pixels, pixel.1 < width ∧ pixel.2 < height) :
    Frame.Passes premultiplied frame (compositeFrames premultiplied scratch pixels offset frame)
      (composite premultiplied scratch pixels offset frame) := by
  induction pixels generalizing offset frame with
  | nil => exact .stay frame
  | cons pixel rest ih =>
    subst hwidth hheight
    obtain ⟨hhead, hrest⟩ := hholds
    obtain ⟨⟨hx, hy⟩, hin⟩ := List.forall_mem_cons.mp hin
    refine .lay ⟨pixel.1, hx, pixel.2, hy, Buffer.pixel scratch offset, ?_, rfl⟩
      (ih (Frame.width_compositeAt ..) (Frame.height_compositeAt ..) hrest hin)
    rw [hhead]
    exact hfits _

theorem passes_draw {ctx : FrameContext ℝ} {item : Item ℝ}
    (hfits : ∀ p, ((item.paint ctx).colorAt p).Fits ctx.premultipliedAlpha) (canvas : Canvas ℝ) :
    Frame.Passes ctx.premultipliedAlpha canvas.frame (drawFrames ctx canvas item)
      (draw ctx canvas item).frame := by
  unfold drawFrames draw
  dsimp only
  generalize item.paint ctx = paint at hfits ⊢
  generalize paint.rasterBounds.span _ _ = span
  have hin : ∀ pixel ∈ span.pixels canvas.frame.width canvas.frame.height,
      pixel.1 < canvas.frame.width ∧ pixel.2 < canvas.frame.height := fun pixel hpixel =>
    ⟨(Span.mem_pixels.mp hpixel).1, (Span.mem_pixels.mp hpixel).2.1⟩
  generalize span.pixels canvas.frame.width canvas.frame.height = pixels at hin ⊢
  have hroom := le_size_reserve canvas.scratch (pixels.length * 4)
  have hholds := holds_evaluate paint.colorAt pixels 0
    (reserve canvas.scratch (pixels.length * 4)) (by omega)
  split
  next hempty =>
    rw [List.isEmpty_iff.mp hempty]
    exact .stay _
  next => exact passes_composite hfits rfl rfl hholds hin

theorem passes_run {ctx : FrameContext ℝ} {items : List (Item ℝ)}
    (hfits : ∀ item ∈ items, ∀ p, ((item.paint ctx).colorAt p).Fits ctx.premultipliedAlpha)
    (canvas : Canvas ℝ) :
    Frame.Passes ctx.premultipliedAlpha canvas.frame (runFrames ctx items canvas)
      (items.foldl (draw ctx) canvas).frame := by
  induction items generalizing canvas with
  | nil => exact .stay _
  | cons item rest ih =>
    obtain ⟨hitem, hrest⟩ := List.forall_mem_cons.mp hfits
    exact (passes_draw hitem canvas).trans (ih hrest _)

end Canvas

namespace Renderer

/-- A renderer that was not disposed of draws batches without shadows so that every frame on the
way, from the cleared one to the finished one, is valid. The colours named by the options and the
batches are in range, and the textures are made from bytes; nothing else is asked of them. -/
theorem draw_valid [Memory] {r : Renderer ℝ} (hr : r.disposed = false)
    (hclear : r.options.clearColor.InRange) {atlas : Option (Atlas ℝ)}
    (hatlas : ∀ a, atlas = some a → a.Built) {batches : List (Batch ℝ)}
    (hbatches : ∀ batch ∈ batches, batch.InRange) {target : Option (Frame ℝ)} {frame : Frame ℝ}
    (htarget : r.targetFrame target = .ok frame) :
    ∃ drawn, r.draw atlas batches target = .ok drawn
      ∧ Frame.Passes r.options.premultipliedAlpha (frame.clear r.options.clearColor)
          (r.frames atlas batches frame) drawn.frame
      ∧ ∀ f ∈ frame.clear r.options.clearColor :: r.frames atlas batches frame, f.Valid := by
  have hfits : ∀ item ∈ Batch.items r.options atlas batches, ∀ p,
      ((item.paint (r.options.context atlas)).colorAt p).Fits
        (r.options.context atlas).premultipliedAlpha :=
    fun item hitem => Item.colorAt_fits (Batch.InRange.of_mem_items hbatches hitem) hatlas
  have hpasses : Frame.Passes r.options.premultipliedAlpha (frame.clear r.options.clearColor)
      (r.frames atlas batches frame) (r.canvas atlas batches frame).frame :=
    Canvas.passes_run hfits ⟨frame.clear r.options.clearColor, r.scratch⟩
  exact ⟨_, draw_of_target hr atlas batches htarget, hpasses,
    (frame.valid_clear hclear).of_passes hpasses⟩

/-- A translucent wave over a quad with a gradient, whose stops coincide and whose radii are
negative, drawn in premultiplied mode. -/
theorem draw_valid_wave :
    letI : Memory := .unbounded
    let options : Options ℝ := ⟨⟨2, 2⟩, true, 4, false, ⟨1, 0, 0, 0.5⟩, 2, 6, false⟩
    let r : Renderer ℝ := ⟨options, #[7], false⟩
    let mask : Bounds ℝ := .of 0 0 8 8
    let color : Hsla ℝ := ⟨-7, 1, 0.5, 0.5⟩
    let fill : Fill ℝ := .linear ⟨45, ⟨color, 0.5⟩, ⟨color, 0.5⟩, .srgb⟩
    let batches : List (Batch ℝ) :=
      [.quads [⟨⟨0, mask, .of 0 0 2 2⟩, fill, color, ⟨-1, -1, 2, 3⟩, ⟨1, 0, 2, -1⟩⟩],
        .shadows [], .underlines [⟨⟨1, mask, .of 0 0 2 1⟩, color, 1, true⟩]]
    ∃ drawn, r.draw (some .empty) batches (some (.blank 2 2)) = .ok drawn
      ∧ Frame.Passes true ((Frame.blank 2 2).clear options.clearColor)
          (r.frames (some .empty) batches (.blank 2 2)) drawn.frame
      ∧ ∀ f ∈ (Frame.blank 2 2).clear options.clearColor
          :: r.frames (some .empty) batches (.blank 2 2), f.Valid := by
  let _ : Memory := .unbounded
  intro options r mask color fill batches
  have hclear : options.clearColor.InRange := by
    constructor <;> norm_num [options]
  have hcolor : color.InRange := by
    constructor <;> norm_num [color]
  have hfill : fill.InRange := ⟨hcolor, hcolor, nofun⟩
  have hatlas : ∀ a, some (Atlas.empty : Atlas ℝ) = some a → a.Built := by
    rintro a ⟨⟩
    exact .empty
  have hbatches : ∀ batch ∈ batches, batch.InRange := by
    simp only [batches, List.forall_mem_cons, List.not_mem_nil, false_imp_iff, implies_true,
      and_true]
    refine ⟨?_, ?_, ?_⟩
    · exact List.forall_mem_singleton.mpr ⟨hfill, hcolor⟩
    · rfl
    · exact List.forall_mem_singleton.mpr hcolor
  exact draw_valid (r := r) rfl hclear hatlas hbatches rfl

end Renderer

end Raster
