import Mathlib.Logic.Function.Basic
import Raster.Proofs.Influence
import Raster.Proofs.ResolvedOptions

/-!
# Runs of calls on a renderer

A renderer is used through three calls (`RendererCall`) by a caller who
holds frames under names and reads the log with a logger of its own
(`Session`). A drawing works on a held frame in place: it is cleared, then
batch after batch is drawn into it, and a call that fails stops where it
is, with what it has done so far. That this comes to `Renderer.draw` is
`Session.draw_eq`.

`Session.call_cases` says what a call can do. From it follow, by induction
on the calls, what a run preserves: the options are always resolved
(`Session.resolved_run`), and the renderer is disposed of once there was a
call to do so, and not before (`Session.disposed_run`). Two runs with
different loggers, different drawings and different viewports behind them
draw the same frames as long as their options draw alike
(`renderer_output_determined`).
-/

namespace Raster

/-- Where a drawing goes: into a frame that the caller holds under a name, or into a new one, which
the caller will then hold under it. -/
inductive Target (ι : Type) where
  | given (name : ι)
  | new (name : ι)
  deriving Repr, DecidableEq

def Target.name {ι : Type} : Target ι → ι
  | given name => name
  | new name => name

/-- A use of a renderer. The atlas is what it holds at the time of the call. -/
inductive RendererCall (ι α : Type) where
  | draw (atlas : Option (Atlas α)) (batches : List (Batch α)) (target : Target ι)
  | resize (size : Size α)
  | dispose

inductive CallError (α : Type) where
  | badDraw (error : RenderError α)
  | badResize (error : OptionsError α)
  deriving Repr, DecidableEq

/-- A renderer at work, the frames that its caller holds, and what the logger has made of the log. -/
structure Session (ι σ α : Type) where
  renderer : Renderer α
  frames : ι → Frame α
  heard : σ

namespace Session

variable {ι σ α : Type} [DecidableEq ι]

/-! ## Calls -/

def tell (logger : σ → LogEvent α → σ) (s : Session ι σ α) (events : List (LogEvent α)) :
    Session ι σ α :=
  { s with heard := events.foldl logger s.heard }

/-- The canvas for drawing into a held frame. -/
def canvas (s : Session ι σ α) (name : ι) : Canvas α := ⟨s.frames name, s.renderer.scratch⟩

def putCanvas (s : Session ι σ α) (name : ι) (canvas : Canvas α) : Session ι σ α :=
  { s with
    renderer := { s.renderer with scratch := canvas.scratch }
    frames := Function.update s.frames name canvas.frame }

def putFrame (s : Session ι σ α) (name : ι) (frame : Frame α) : Session ι σ α :=
  { s with frames := Function.update s.frames name frame }

variable [Scalar α]

def drawItem (ctx : FrameContext α) (name : ι) (s : Session ι σ α) (item : Item α) :
    Session ι σ α :=
  s.putCanvas name (Canvas.draw ctx (s.canvas name) item)

def drawBatch (logger : σ → LogEvent α → σ) (options : Options α) (atlas : Option (Atlas α))
    (name : ι) (s : Session ι σ α) (batch : Batch α) : Session ι σ α :=
  let plan := batch.plan options atlas
  plan.items.foldl (drawItem (options.context atlas) name) (s.tell logger plan.events)

/-- Makes sure that there is a frame to draw into. -/
def openTarget [Memory] (s : Session ι σ α) : Target ι → Except (FrameError α) (Session ι σ α)
  | .given _ => .ok s
  | .new name => s.renderer.createFrame.map (s.putFrame name)

/-- Draws batches into a held frame, and logs it. -/
def drawInto (logger : σ → LogEvent α → σ) (s : Session ι σ α) (atlas : Option (Atlas α))
    (batches : List (Batch α)) (name : ι) : Session ι σ α :=
  let options := s.renderer.options
  let cleared := s.putFrame name ((s.frames name).clear options.clearColor)
  let drawn := batches.foldl (drawBatch logger options atlas name) cleared
  let frame := drawn.frames name
  drawn.tell logger
    (if options.debug then [.finished frame.width frame.height batches.length] else [])

def draw [Memory] (logger : σ → LogEvent α → σ) (s : Session ι σ α) (atlas : Option (Atlas α))
    (batches : List (Batch α)) (target : Target ι) :
    Session ι σ α × Except (CallError α) Unit :=
  if s.renderer.disposed then (s, .error (.badDraw .disposed))
  else
    match s.openTarget target with
    | .error e => (s, .error (.badDraw (.badFrame e)))
    | .ok opened => (opened.drawInto logger atlas batches target.name, .ok ())

/-- What a call makes of a session, and whether it fails. -/
def call [Memory] (logger : σ → LogEvent α → σ) (s : Session ι σ α) :
    RendererCall ι α → Session ι σ α × Except (CallError α) Unit
  | .draw atlas batches target => s.draw logger atlas batches target
  | .resize size =>
    match s.renderer.resize size with
    | .ok renderer => ({ s with renderer }, .ok ())
    | .error e => (s, .error (.badResize e))
  | .dispose => ({ s with renderer := s.renderer.dispose }, .ok ())

/-- The session after some calls, of which some may have failed. -/
def run [Memory] (logger : σ → LogEvent α → σ) (calls : List (RendererCall ι α))
    (s : Session ι σ α) : Session ι σ α :=
  calls.foldl (fun s c => (s.call logger c).1) s

/-! ## Drawing in place -/

omit [Scalar α] in
@[simp] theorem canvas_putCanvas (s : Session ι σ α) (name : ι) (canvas : Canvas α) :
    (s.putCanvas name canvas).canvas name = canvas := by
  simp [putCanvas, Session.canvas]

omit [Scalar α] in
@[simp] theorem putCanvas_canvas (s : Session ι σ α) (name : ι) :
    s.putCanvas name (s.canvas name) = s := by
  simp [putCanvas, canvas]

omit [Scalar α] in
@[simp] theorem putCanvas_putCanvas (s : Session ι σ α) (name : ι) (canvas canvas' : Canvas α) :
    (s.putCanvas name canvas).putCanvas name canvas' = s.putCanvas name canvas' := by
  simp [putCanvas]

theorem foldl_drawItem (ctx : FrameContext α) (name : ι) (items : List (Item α))
    (s : Session ι σ α) :
    items.foldl (drawItem ctx name) s
      = s.putCanvas name (items.foldl (Canvas.draw ctx) (s.canvas name)) := by
  induction items generalizing s with
  | nil => simp
  | cons item rest ih => simp [ih, drawItem]

/-- Drawing batch after batch, with the log in between, is drawing all of their items. -/
theorem foldl_drawBatch (logger : σ → LogEvent α → σ) (options : Options α)
    (atlas : Option (Atlas α)) (name : ι) (batches : List (Batch α)) (s : Session ι σ α) :
    batches.foldl (drawBatch logger options atlas name) s
      = (s.tell logger ((batches.map (·.plan options atlas)).flatMap (·.events))).putCanvas name
          ((Batch.items options atlas batches).foldl (Canvas.draw (options.context atlas))
            (s.canvas name)) := by
  induction batches generalizing s with
  | nil => exact (putCanvas_canvas s name).symm
  | cons batch rest ih =>
    have hcanvas (events : List (LogEvent α)) :
        (s.tell logger events).canvas name = s.canvas name := rfl
    have htell (s : Session ι σ α) (canvas : Canvas α) (events : List (LogEvent α)) :
        (s.putCanvas name canvas).tell logger events = (s.tell logger events).putCanvas name canvas :=
      rfl
    have htwice (events events' : List (LogEvent α)) :
        (s.tell logger events).tell logger events' = s.tell logger (events ++ events') := by
      simp [tell]
    rw [List.foldl_cons, ih, drawBatch, foldl_drawItem, canvas_putCanvas, htell,
      putCanvas_putCanvas, htwice, hcanvas, Batch.items, Batch.items, List.map_cons,
      List.flatMap_cons, List.flatMap_cons, List.foldl_append]

theorem drawInto_eq (logger : σ → LogEvent α → σ) (s : Session ι σ α) (atlas : Option (Atlas α))
    (batches : List (Batch α)) (name : ι) :
    let canvas := s.renderer.canvas atlas batches (s.frames name)
    s.drawInto logger atlas batches name
      = { renderer := { s.renderer with scratch := canvas.scratch }
          frames := Function.update s.frames name canvas.frame
          heard := (s.renderer.events atlas batches (s.frames name)).foldl logger s.heard } := by
  intro canvas
  have hcleared : (s.putFrame name ((s.frames name).clear s.renderer.options.clearColor)).canvas name
      = ⟨(s.frames name).clear s.renderer.options.clearColor, s.renderer.scratch⟩ := by
    simp [putFrame, Session.canvas]
  have hdrawn : (Batch.items s.renderer.options atlas batches).foldl
        (Canvas.draw (s.renderer.options.context atlas))
        ⟨(s.frames name).clear s.renderer.options.clearColor, s.renderer.scratch⟩ = canvas := rfl
  have hwidth : canvas.frame.width = (s.frames name).width := s.renderer.width_canvas ..
  have hheight : canvas.frame.height = (s.frames name).height := s.renderer.height_canvas ..
  unfold drawInto
  dsimp only
  rw [foldl_drawBatch, hcleared, hdrawn]
  simp [putCanvas, putFrame, tell, Renderer.events, hwidth, hheight]

variable [Memory]

/-- The frame that the renderer is handed for a target. -/
def targetFrame? (s : Session ι σ α) : Target ι → Option (Frame α)
  | .given name => some (s.frames name)
  | .new _ => none

/-- Drawing in place does what drawing does, and leaves its frame under the name of the target. A
drawing that fails leaves everything as it was. -/
theorem draw_eq (logger : σ → LogEvent α → σ) (s : Session ι σ α) (atlas : Option (Atlas α))
    (batches : List (Batch α)) (target : Target ι) :
    s.draw logger atlas batches target
      = match s.renderer.draw atlas batches (s.targetFrame? target) with
        | .ok drawn =>
          (⟨drawn.renderer, Function.update s.frames target.name drawn.frame,
            drawn.events.foldl logger s.heard⟩, .ok ())
        | .error e => (s, .error (.badDraw e)) := by
  rw [draw, Renderer.draw_eq]
  split
  · rfl
  · cases target with
    | given name =>
      simp only [openTarget, drawInto_eq]
      rfl
    | new name =>
      simp only [openTarget, targetFrame?, Renderer.targetFrame]
      cases s.renderer.createFrame with
      | error e => rfl
      | ok frame =>
        simp only [Except.map, drawInto_eq, putFrame, Target.name, Function.update_self,
          Function.update_idem]
        rfl

/-! ## What a run preserves -/

/-- What a call can do: fail and change nothing, draw, take on a viewport that passes its check, or
dispose of the renderer. -/
theorem call_cases (logger : σ → LogEvent α → σ) (s : Session ι σ α) (c : RendererCall ι α) :
    (c ≠ .dispose ∧ ∃ e, s.call logger c = (s, .error e))
    ∨ (∃ atlas batches target drawn, c = .draw atlas batches target
        ∧ s.renderer.draw atlas batches (s.targetFrame? target) = .ok drawn
        ∧ s.call logger c
          = (⟨drawn.renderer, Function.update s.frames target.name drawn.frame,
              drawn.events.foldl logger s.heard⟩, .ok ()))
    ∨ (∃ size options, c = .resize size ∧ s.renderer.options.withViewport size = .ok options
        ∧ s.call logger c = ({ s with renderer := { s.renderer with options } }, .ok ()))
    ∨ (c = .dispose ∧ s.call logger c = ({ s with renderer := s.renderer.dispose }, .ok ())) := by
  cases c with
  | draw atlas batches target =>
    rw [call, draw_eq]
    cases hdraw : s.renderer.draw atlas batches (s.targetFrame? target) with
    | error e => exact .inl ⟨nofun, _, rfl⟩
    | ok drawn => exact .inr (.inl ⟨atlas, batches, target, drawn, rfl, hdraw, rfl⟩)
  | resize size =>
    rw [call]
    cases hresize : s.renderer.resize size with
    | error e => exact .inl ⟨nofun, _, rfl⟩
    | ok next =>
      obtain ⟨options, hoptions, rfl⟩ := Renderer.eq_of_resize hresize
      exact .inr (.inr (.inl ⟨size, options, rfl, hoptions, rfl⟩))
  | dispose => exact .inr (.inr (.inr ⟨rfl, rfl⟩))

theorem resolved_call (logger : σ → LogEvent α → σ) {s : Session ι σ α}
    (hs : s.renderer.options.Resolved) (c : RendererCall ι α) :
    (s.call logger c).1.renderer.options.Resolved := by
  rcases s.call_cases logger c with ⟨-, e, h⟩ | ⟨_, _, _, drawn, -, hdraw, h⟩
    | ⟨size, options, -, hoptions, h⟩ | ⟨-, h⟩ <;> rw [h]
  · exact hs
  · show drawn.renderer.options.Resolved
    rwa [(Renderer.renderer_of_draw hdraw).1]
  · exact hs.withViewport hoptions
  · exact hs

theorem disposed_call (logger : σ → LogEvent α → σ) (s : Session ι σ α) (c : RendererCall ι α) :
    (s.call logger c).1.renderer.disposed = true ↔ s.renderer.disposed = true ∨ c = .dispose := by
  rcases s.call_cases logger c with ⟨hc, e, h⟩ | ⟨_, _, _, drawn, rfl, hdraw, h⟩
    | ⟨size, options, rfl, -, h⟩ | ⟨rfl, h⟩ <;> rw [h]
  · simp [hc]
  · simp [(Renderer.renderer_of_draw hdraw).2]
  · simp
  · simp [Renderer.dispose]

theorem resolved_run (logger : σ → LogEvent α → σ) (calls : List (RendererCall ι α))
    {s : Session ι σ α} (hs : s.renderer.options.Resolved) :
    (run logger calls s).renderer.options.Resolved := by
  induction calls generalizing s with
  | nil => exact hs
  | cons c rest ih => exact ih (resolved_call logger hs c)

/-- A renderer is disposed of by a call to do so, and by nothing else. -/
theorem disposed_run (logger : σ → LogEvent α → σ) (calls : List (RendererCall ι α))
    (s : Session ι σ α) :
    (run logger calls s).renderer.disposed = true
      ↔ s.renderer.disposed = true ∨ .dispose ∈ calls := by
  induction calls generalizing s with
  | nil => simp [run]
  | cons c rest ih =>
    have hrun : run logger (c :: rest) s = run logger rest (s.call logger c).1 := rfl
    rw [hrun, ih, disposed_call, List.mem_cons, or_assoc, eq_comm (a := c)]

/-! ## Sessions with a new renderer -/

/-- The session comes of one with a new renderer by some calls. -/
def Follows (logger : σ → LogEvent α → σ) (calls : List (RendererCall ι α)) (s : Session ι σ α) :
    Prop :=
  ∃ input renderer frames heard, Renderer.create input = .ok renderer
    ∧ s = run logger calls ⟨renderer, frames, heard⟩

variable {logger : σ → LogEvent α → σ} {calls : List (RendererCall ι α)} {s : Session ι σ α}

theorem Follows.run (hs : s.Follows logger calls) (more : List (RendererCall ι α)) :
    (run logger more s).Follows logger (calls ++ more) := by
  obtain ⟨input, r, frames, heard, hcreate, rfl⟩ := hs
  exact ⟨input, r, frames, heard, hcreate, (List.foldl_append ..).symm⟩

theorem Follows.resolved (hα : Scalar.Counts α) (hs : s.Follows logger calls) :
    s.renderer.options.Resolved := by
  obtain ⟨input, r, frames, heard, hcreate, rfl⟩ := hs
  obtain ⟨options, hoptions, rfl⟩ := Renderer.eq_of_create hcreate
  exact resolved_run logger calls (Options.resolved_of_resolve hα hoptions)

theorem Follows.disposed_iff (hs : s.Follows logger calls) :
    s.renderer.disposed = true ↔ .dispose ∈ calls := by
  obtain ⟨input, r, frames, heard, hcreate, rfl⟩ := hs
  obtain ⟨options, -, rfl⟩ := Renderer.eq_of_create hcreate
  simp [disposed_run]

/-- Before it is disposed of, a renderer draws into every frame that it is given. -/
theorem Follows.call_draw (hs : s.Follows logger calls) (hlive : .dispose ∉ calls)
    (atlas : Option (Atlas α)) (batches : List (Batch α)) (name : ι) :
    (s.call logger (.draw atlas batches (.given name))).2 = .ok ()
      ∧ (s.call logger (.draw atlas batches (.given name))).1.frames name
        = (s.renderer.canvas atlas batches (s.frames name)).frame := by
  have hdisposed : s.renderer.disposed = false :=
    Bool.eq_false_iff.mpr fun h => hlive (hs.disposed_iff.mp h)
  have htarget : s.renderer.targetFrame (s.targetFrame? (.given name)) = .ok (s.frames name) := rfl
  have hdraw := Renderer.draw_of_target hdisposed atlas batches htarget
  rw [call, draw_eq, hdraw]
  exact ⟨rfl, Function.update_self ..⟩

/-- Afterwards it draws nothing, and nothing happens to the frame. -/
theorem Follows.call_draw_of_disposed (hs : s.Follows logger calls) (hdisposed : .dispose ∈ calls)
    (atlas : Option (Atlas α)) (batches : List (Batch α)) (target : Target ι) :
    s.call logger (.draw atlas batches target) = (s, .error (.badDraw .disposed)) := by
  rw [call, draw, if_pos (hs.disposed_iff.mpr hdisposed)]

/-- To resize is to resolve the options again, with the new viewport. -/
theorem call_resize_of_ok (hs : s.renderer.options.Resolved) {size : Size α} {options : Options α}
    (h : Options.resolve { s.renderer.options.toInput with viewport := size } = .ok options) :
    s.call logger (.resize size)
      = ({ s with renderer := { s.renderer with options } }, .ok ()) := by
  rw [hs.resolve_withViewport] at h
  rw [call, Renderer.resize, h]
  rfl

theorem call_resize_of_error (hs : s.renderer.options.Resolved) {size : Size α}
    {e : OptionsError α}
    (h : Options.resolve { s.renderer.options.toInput with viewport := size } = .error e) :
    s.call logger (.resize size) = (s, .error (.badResize e)) := by
  rw [hs.resolve_withViewport] at h
  rw [call, Renderer.resize, h]
  rfl

end Session

open Session

/-- In every session with a new renderer, after whatever calls: the options pass their checks and
come out of them unchanged; resizing resolves them with the new viewport, or fails and changes
nothing; as long as the renderer is not disposed of, a given frame comes out as from any other
session, and as from a new renderer, whose options draw alike; and afterwards drawing fails and
changes nothing. What options are accepted is told by `OptionsInput.Acceptable`. -/
theorem renderer_output_determined [Memory] :
    (∀ (ι σ : Type) [DecidableEq ι] (logger : σ → LogEvent Float → σ)
        (calls : List (RendererCall ι Float)) (s : Session ι σ Float), s.Follows logger calls →
      Options.resolve s.renderer.options.toInput = .ok s.renderer.options
      ∧ (∀ size options,
        Options.resolve { s.renderer.options.toInput with viewport := size } = .ok options →
        s.call logger (.resize size)
          = ({ s with renderer := { s.renderer with options } }, .ok ()))
      ∧ (∀ size e,
        Options.resolve { s.renderer.options.toInput with viewport := size } = .error e →
        s.call logger (.resize size) = (s, .error (.badResize e)))
      ∧ (.dispose ∉ calls →
        ∀ (ι' σ' : Type) [DecidableEq ι'] (logger' : σ' → LogEvent Float → σ')
          (calls' : List (RendererCall ι' Float)) (s' : Session ι' σ' Float),
          s'.Follows logger' calls' → .dispose ∉ calls' →
          s.renderer.options.DrawAlike s'.renderer.options →
          ∀ (atlas atlas' : Option (Atlas Float)), Atlas.Alike atlas atlas' →
          ∀ (batches : List (Batch Float)) (name : ι) (name' : ι'),
            (s.frames name).width = (s'.frames name').width →
            (s.frames name).height = (s'.frames name').height →
            (s.call logger (.draw atlas batches (.given name))).2 = .ok ()
            ∧ (s'.call logger' (.draw atlas' batches (.given name'))).2 = .ok ()
            ∧ (s.call logger (.draw atlas batches (.given name))).1.frames name
              = (s'.call logger' (.draw atlas' batches (.given name'))).1.frames name')
      ∧ (.dispose ∉ calls →
        ∃ fresh, Renderer.create s.renderer.options.toInput = .ok fresh
          ∧ ∀ (atlas atlas' : Option (Atlas Float)), Atlas.Alike atlas atlas' →
            ∀ (batches : List (Batch Float)) (name : ι) (frame : Frame Float),
              (s.frames name).width = frame.width → (s.frames name).height = frame.height →
              ∃ drawn, fresh.draw atlas' batches (some frame) = .ok drawn
                ∧ (s.call logger (.draw atlas batches (.given name))).2 = .ok ()
                ∧ (s.call logger (.draw atlas batches (.given name))).1.frames name = drawn.frame)
      ∧ (.dispose ∈ calls → ∀ atlas batches target,
        s.call logger (.draw atlas batches target) = (s, .error (.badDraw .disposed))))
    ∧ (∀ input : OptionsInput Float,
        (∃ options, Options.resolve input = .ok options) ↔ input.Acceptable)
    ∧ ∀ (input : OptionsInput Float) (options : Options Float),
        Options.resolve input = .ok options → Options.resolve options.toInput = .ok options := by
  refine ⟨fun ι σ _ logger calls s hs => ?_, fun input => Options.exists_resolve_iff_acceptable,
    fun input options h => (Options.resolved_of_resolve Binary64.counts h).resolve_toInput⟩
  have hresolved := hs.resolved Binary64.counts
  refine ⟨hresolved.resolve_toInput, fun _ _ => call_resize_of_ok hresolved,
    fun _ _ => call_resize_of_error hresolved, ?_, ?_, hs.call_draw_of_disposed⟩
  · intro hlive ι' σ' _ logger' calls' s' hs' hlive' halike atlas atlas' hatlas batches name name'
      hwidth hheight
    obtain ⟨hok, hframe⟩ := hs.call_draw hlive atlas batches name
    obtain ⟨hok', hframe'⟩ := hs'.call_draw hlive' atlas' batches name'
    refine ⟨hok, hok', ?_⟩
    rw [hframe, hframe']
    exact Renderer.frame_canvas_congr halike hatlas batches hwidth hheight
  · intro hlive
    obtain ⟨fresh, hcreate, hoptions⟩ : ∃ fresh,
        Renderer.create s.renderer.options.toInput = .ok fresh
          ∧ fresh = ⟨s.renderer.options, #[], false⟩ := by
      rw [Renderer.create, hresolved.resolve_toInput]
      exact ⟨_, rfl, rfl⟩
    refine ⟨fresh, hcreate, fun atlas atlas' hatlas batches name frame hwidth hheight => ?_⟩
    subst hoptions
    obtain ⟨hok, hframe⟩ := hs.call_draw hlive atlas batches name
    have halike : s.renderer.options.DrawAlike
        (Renderer.mk s.renderer.options #[] false).options := .refl _
    have htarget : (Renderer.mk s.renderer.options #[] false).targetFrame (some frame)
        = .ok frame := rfl
    refine ⟨_, Renderer.draw_of_target rfl atlas' batches htarget, hok, ?_⟩
    rw [hframe]
    exact Renderer.frame_canvas_congr halike hatlas batches hwidth hheight

/-- A renderer that was used, and asked for a viewport that it refused and for one that it took,
against a new one with another viewport, the debug option and another logger; and the same renderer
after it was disposed of. -/
theorem renderer_output_determined_after_resize :
    letI : Memory := .unbounded
    let line : Batch Float := .underlines [⟨⟨0, .of 0 0 8 8, .of 0 0 2 1⟩, ⟨0, 0, 0, 1⟩, 1, true⟩]
    let calls : List (RendererCall Bool Float) :=
      [.draw none [line] (.given false), .resize ⟨-1, 3⟩, .resize ⟨5, 4⟩]
    let logger : List (LogEvent Float) → LogEvent Float → List (LogEvent Float) :=
      fun heard event => event :: heard
    let count : Nat → LogEvent Float → Nat := fun n _ => n + 1
    let r : Renderer Float :=
      ⟨⟨⟨2, 1⟩, false, 4, false, Rgba.transparent, 4096, 65536, false⟩, #[], false⟩
    let r' : Renderer Float :=
      ⟨⟨⟨7, 7⟩, false, 4, false, Rgba.transparent, 4096, 65536, true⟩, #[], false⟩
    let s := run logger calls ⟨r, fun _ => Frame.blank 2 1, []⟩
    let s' : Session Unit Nat Float := ⟨r', fun _ => ⟨2, 1, #[7, 7, 7, 7, 7, 7, 7, 7], rfl⟩, 0⟩
    s.renderer.options.viewport = ⟨5, 4⟩
      ∧ s.call logger (.resize ⟨-1, 3⟩) = (s, .error (.badResize (.badViewport .width (-1))))
      ∧ (s.call logger (.draw none [line] (.given true))).1.frames true
        = (s'.call count (.draw (some Atlas.empty) [line] (.given ()))).1.frames ()
      ∧ (run logger [.dispose] s).call logger (.draw none [line] (.given true))
        = (run logger [.dispose] s, .error (.badDraw .disposed)) := by
  let _ : Memory := .unbounded
  intro line calls logger count r r' s s'
  have hcreate : Renderer.create ⟨⟨2, 1⟩, none, none, none, none, none, none, none⟩ = .ok r := rfl
  have hcreate' : Renderer.create ⟨⟨7, 7⟩, none, none, none, none, none, none, some true⟩
      = .ok r' := rfl
  have hs : s.Follows logger calls := ⟨_, _, _, _, hcreate, rfl⟩
  have hs' : s'.Follows count [] := ⟨_, _, _, _, hcreate', rfl⟩
  have hdisposed := hs.run [.dispose]
  have hlive : .dispose ∉ calls := by simp [calls]
  have hoptions : s.renderer.options
      = ⟨⟨5, 4⟩, false, 4, false, Rgba.transparent, 4096, 65536, false⟩ := rfl
  have hcheck : Options.checkViewport ⟨-1, 3⟩ = .error (.badViewport .width (-1 : Float)) := rfl
  have hrefused : Options.resolve { s.renderer.options.toInput with viewport := ⟨-1, 3⟩ }
      = .error (.badViewport .width (-1)) := by
    rw [(hs.resolved Binary64.counts).resolve_withViewport, Options.withViewport, hcheck]
    rfl
  have halike : s.renderer.options.DrawAlike s'.renderer.options := rfl
  have hatlas : Atlas.Alike none (some (Atlas.empty : Atlas Float)) := fun ref => by
    cases ref <;> rfl
  obtain ⟨hsession, -, -⟩ := renderer_output_determined
  obtain ⟨-, -, herror, hdraw, -, -⟩ := hsession Bool _ logger calls s hs
  refine ⟨congrArg Options.viewport hoptions, herror _ _ hrefused, ?_, ?_⟩
  · exact (hdraw hlive Unit Nat count [] s' hs' (by simp) halike none (some Atlas.empty) hatlas
      [line] true () rfl rfl).2.2
  · exact (hsession Bool _ logger _ _ hdisposed).2.2.2.2.2 (by simp) none [line] (.given true)

end Raster
