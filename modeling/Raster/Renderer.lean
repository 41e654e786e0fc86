import Raster.Batch
import Raster.Frame.Basic
import Raster.Frame.Span

/-!
# The renderer

Walks over batches in order and draws each item into a frame, in two
phases. The first evaluates the pixels that the item may touch and writes
their colours, one after the other, to a scratch buffer; the second lays
them onto the frame in the same order. The scratch buffer is kept from
item to item and from frame to frame, and is only ever replaced by a
larger one.
-/

namespace Raster

/-- A frame under the brush, with the scratch buffer. -/
structure Canvas (α : Type) where
  frame : Frame α
  scratch : Array α

variable {α : Type} [Scalar α]

def pixelCenter (pixel : Nat × Nat) : Point α :=
  ⟨Scalar.ofNat pixel.1 + 0.5, Scalar.ofNat pixel.2 + 0.5⟩

namespace Canvas

/-- The scratch buffer, replaced by a blank one of at least twice the size if it is shorter than
`length`. -/
def reserve (scratch : Array α) (length : Nat) : Array α :=
  if scratch.size < length then Array.replicate (Nat.max length (scratch.size * 2)) 0 else scratch

/-- The first phase: the colours at pixel centres, written from an offset on. -/
def evaluate (colorAt : Point α → Rgba α) :
    List (Nat × Nat) → (offset : Nat) → Array α → Array α
  | [], _, scratch => scratch
  | pixel :: rest, offset, scratch =>
    evaluate colorAt rest (offset + 4)
      (Buffer.putPixel scratch offset (colorAt (pixelCenter pixel)).store)

/-- The second phase: lays the colours from an offset on onto their pixels. -/
def composite (premultiplied : Bool) (scratch : Array α) :
    List (Nat × Nat) → (offset : Nat) → Frame α → Frame α
  | [], _, frame => frame
  | (column, row) :: rest, offset, frame =>
    composite premultiplied scratch rest (offset + 4)
      (frame.compositeAt (frame.offset column row) (Buffer.pixel scratch offset) premultiplied)

def draw (ctx : FrameContext α) (canvas : Canvas α) (item : Item α) : Canvas α :=
  let frame := canvas.frame
  let paint := item.paint ctx
  let span := paint.rasterBounds.span (Scalar.ofNat frame.width) (Scalar.ofNat frame.height)
  let pixels := span.pixels frame.width frame.height
  if pixels.isEmpty then canvas
  else
    let scratch := evaluate paint.colorAt pixels 0 (reserve canvas.scratch (pixels.length * 4))
    ⟨composite ctx.premultipliedAlpha scratch pixels 0 frame, scratch⟩

end Canvas

/-- A renderer between two frames. -/
structure Renderer (α : Type) where
  options : Options α
  scratch : Array α
  disposed : Bool

inductive RenderError (α : Type) where
  | disposed
  | badFrame (error : FrameError α)
  deriving Repr, DecidableEq

/-- A finished frame, the renderer after it, and what was logged. -/
structure Drawn (α : Type) where
  renderer : Renderer α
  frame : Frame α
  events : List (LogEvent α)

namespace Renderer

/-- A new renderer with the options that a caller states. -/
def create (input : OptionsInput α) : Except (OptionsError α) (Renderer α) := do
  return ⟨← Options.resolve input, #[], false⟩

/-- A blank frame for the viewport, rounded up to whole pixels. -/
def createFrame [Memory] (r : Renderer α) : Except (FrameError α) (Frame α) :=
  Frame.ofSize (Scalar.ceil r.options.viewport.width) (Scalar.ceil r.options.viewport.height)

/-- The frame to draw into: the one given, or a new one. -/
def targetFrame [Memory] (r : Renderer α) : Option (Frame α) → Except (RenderError α) (Frame α)
  | some frame => .ok frame
  | none => r.createFrame.mapError .badFrame

/-- Draws batches into a frame, or into a new one. Whatever the frame held is cleared away. -/
def draw [Memory] (r : Renderer α) (atlas : Option (Atlas α)) (batches : List (Batch α))
    (target : Option (Frame α)) : Except (RenderError α) (Drawn α) := do
  if r.disposed then .error .disposed
  else
    let frame := (← r.targetFrame target).clear r.options.clearColor
    let plans := batches.map (·.plan r.options atlas)
    let canvas := (plans.flatMap (·.items)).foldl (Canvas.draw (r.options.context atlas))
      ⟨frame, r.scratch⟩
    let summary :=
      if r.options.debug then [LogEvent.finished frame.width frame.height batches.length] else []
    .ok
      { renderer := { r with scratch := canvas.scratch }
        frame := canvas.frame
        events := plans.flatMap (·.events) ++ summary }

def resize (r : Renderer α) (size : Size α) : Except (OptionsError α) (Renderer α) := do
  return { r with options := ← r.options.withViewport size }

/-- Gives up the scratch buffer; nothing can be drawn afterwards. -/
def dispose (r : Renderer α) : Renderer α := { r with scratch := #[], disposed := true }

end Renderer

end Raster
