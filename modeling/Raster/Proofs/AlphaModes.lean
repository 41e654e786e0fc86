import Raster.Scalar.Real
import Raster.Proofs.Renderer

/-!
# The two alpha modes

Contributions carry straight colours, or premultiplied ones. Every item
keeps to the mode: what it gives for a point in premultiplied mode is the
premultiplication of what it gives in straight mode (`Item.colorAt_modes`),
whichever branch of its second stage is taken. This needs no more of the
arithmetic than `x * 1 = x` and `0 * 0 = 0`.

In exact arithmetic a contribution and its premultiplication are laid onto
a pixel alike (`Rgba.premultiply_onto`), so the pictures of the two modes
are the same.
-/

namespace Raster

variable {α : Type} [Scalar α]

/-! ## Colours -/

theorem Rgba.fade_premultiplied (hone : ∀ x : α, x * 1 = x) (c : Rgba α) (coverage : α) :
    c.fade coverage true = (c.fade coverage false).premultiply := by
  simp only [fade, premultiply, if_true, Bool.false_eq_true, if_false, hone]

theorem Rgba.premultiply_transparent (hzero : (0 : α) * 0 = 0) :
    (transparent : Rgba α).premultiply = transparent := by
  simp only [transparent, premultiply, hzero]

/-! ## Second stages -/

section
variable (hone : ∀ x : α, x * 1 = x) (hzero : (0 : α) * 0 = 0) (ctx : FrameContext α) (p : Point α)
include hone hzero

theorem Quad.evaluate_premultiplied (q : Quad α) (v : QuadVarying α) :
    q.evaluate v p { ctx with premultipliedAlpha := true }
      = (q.evaluate v p { ctx with premultipliedAlpha := false }).premultiply := by
  simp only [evaluate, QuadCorner.colorByDistance, Rgba.fade_premultiplied hone]
  split_ifs with hclip hplain hinside hinterior
  · rw [Rgba.premultiply_transparent hzero]
  · rfl
  · rw [Rgba.premultiply_transparent hzero]
  · rfl
  · rfl

theorem Shadow.evaluate_premultiplied (s : Shadow α) (v : ShadowVarying α) :
    s.evaluate v p { ctx with premultipliedAlpha := true }
      = (s.evaluate v p { ctx with premultipliedAlpha := false }).premultiply := by
  simp only [evaluate, Rgba.fade_premultiplied hone]
  split_ifs with hclip
  · rw [Rgba.premultiply_transparent hzero]
  · rfl

theorem MonochromeSprite.evaluate_premultiplied (s : MonochromeSprite α)
    (v : MonochromeVarying α) :
    s.evaluate v p { ctx with premultipliedAlpha := true }
      = (s.evaluate v p { ctx with premultipliedAlpha := false }).premultiply := by
  simp only [evaluate, Rgba.fade_premultiplied hone]
  split
  · split_ifs with hout
    · rw [Rgba.premultiply_transparent hzero]
    · rfl
  · rw [Rgba.premultiply_transparent hzero]

theorem PolychromeSprite.evaluate_premultiplied (s : PolychromeSprite α)
    (v : PolychromeVarying α) :
    s.evaluate v p { ctx with premultipliedAlpha := true }
      = (s.evaluate v p { ctx with premultipliedAlpha := false }).premultiply := by
  simp only [evaluate, Rgba.fade_premultiplied hone]
  split
  · rw [Rgba.premultiply_transparent hzero]
  · split_ifs with hout hgray
    · rw [Rgba.premultiply_transparent hzero]
    · rfl
    · rfl

theorem Triangle.evaluate_premultiplied (t : Triangle α) (v : TriangleVarying α) :
    t.evaluate v p { ctx with premultipliedAlpha := true }
      = (t.evaluate v p { ctx with premultipliedAlpha := false }).premultiply := by
  simp only [evaluate, Rgba.fade_premultiplied hone]
  split
  · rw [Rgba.premultiply_transparent hzero]
  · split_ifs with hout hclip
    · rw [Rgba.premultiply_transparent hzero]
    · rw [Rgba.premultiply_transparent hzero]
    · rfl

theorem Underline.evaluate_premultiplied (u : Underline α) (v : UnderlineVarying α) :
    u.evaluate v p { ctx with premultipliedAlpha := true }
      = (u.evaluate v p { ctx with premultipliedAlpha := false }).premultiply := by
  simp only [evaluate, Rgba.fade_premultiplied hone]
  split_ifs with hout hwavy hcovered
  · rw [Rgba.premultiply_transparent hzero]
  · rw [Rgba.premultiply_transparent hzero]
  · rfl
  · rfl

/-- What an item gives in premultiplied mode is the premultiplication of what it gives in straight
mode. -/
theorem Item.colorAt_modes (item : Item α) :
    (item.paint { ctx with premultipliedAlpha := true }).colorAt p
      = ((item.paint { ctx with premultipliedAlpha := false }).colorAt p).premultiply := by
  cases item with
  | quad q => exact q.evaluate_premultiplied hone hzero ctx p _
  | shadow s => exact s.evaluate_premultiplied hone hzero ctx p _
  | monochromeSprite s => exact s.evaluate_premultiplied hone hzero ctx p _
  | polychromeSprite s => exact s.evaluate_premultiplied hone hzero ctx p _
  | triangle t => exact t.evaluate_premultiplied hone hzero ctx p _
  | underline u => exact u.evaluate_premultiplied hone hzero ctx p _

end

/-- The raster bounds of an item do not depend on the mode. -/
theorem Item.rasterBounds_modes (item : Item α) (ctx : FrameContext α) (premultiplied : Bool) :
    (item.paint { ctx with premultipliedAlpha := premultiplied }).rasterBounds
      = (item.paint ctx).rasterBounds := by
  cases item <;> rfl

omit [Scalar α] in
/-- The limits, the atlas and the log decide what a batch comes to; the mode does not. -/
theorem Batch.items_modes (options : Options α) (premultiplied : Bool) (atlas : Option (Atlas α))
    (batches : List (Batch α)) :
    Batch.items { options with premultipliedAlpha := premultiplied } atlas batches
      = Batch.items options atlas batches := by
  have hplan (batch : Batch α) :
      batch.plan { options with premultipliedAlpha := premultiplied } atlas
        = batch.plan options atlas := by
    cases batch <;> rfl
  simp only [Batch.items, hplan]

/-! ## Exact arithmetic -/

theorem Rgba.store_eq_self (c : Rgba ℝ) : c.store = c := rfl

/-- A straight contribution and its premultiplication are laid onto a pixel alike, whatever their
alpha. -/
theorem Rgba.premultiply_onto (c below : Rgba ℝ) :
    c.premultiply.onto true below = c.onto false below := by
  simp only [onto, premultiply, if_true, Bool.false_eq_true, if_false]
  split_ifs with hempty
  · rfl
  · simp only [mul_one]

theorem Item.layOn_modes (ctx : FrameContext ℝ) (width height : Nat) (pixel : Nat × Nat)
    (below : Rgba ℝ) (item : Item ℝ) :
    item.layOn { ctx with premultipliedAlpha := true } width height pixel below
      = item.layOn { ctx with premultipliedAlpha := false } width height pixel below := by
  simp only [layOn, rasterBounds_modes]
  split_ifs with hhas
  · rw [colorAt_modes mul_one (mul_zero 0), Rgba.store_eq_self, Rgba.store_eq_self,
      Rgba.premultiply_onto]
  · rfl

/-- Two renderers whose options differ in the mode only draw the same frames. -/
theorem Renderer.frame_canvas_modes {options : Options ℝ} {r s : Renderer ℝ}
    (hr : r.options = { options with premultipliedAlpha := true })
    (hs : s.options = { options with premultipliedAlpha := false }) (atlas : Option (Atlas ℝ))
    (batches : List (Batch ℝ)) (frame : Frame ℝ) :
    (r.canvas atlas batches frame).frame = (s.canvas atlas batches frame).frame := by
  refine Frame.ext_pixel (by simp) (by simp) fun column hx row hy => ?_
  rw [Renderer.width_canvas] at hx
  rw [Renderer.height_canvas] at hy
  have hlay : Item.layOn (r.options.context atlas) frame.width frame.height (column, row)
      = Item.layOn (s.options.context atlas) frame.width frame.height (column, row) := by
    rw [hr, hs]
    funext below item
    exact item.layOn_modes (options.context atlas) _ _ _ below
  have hitems : Batch.items r.options atlas batches = Batch.items s.options atlas batches := by
    rw [hr, hs, Batch.items_modes options true, Batch.items_modes options false]
  have hclear : r.options.clearColor = s.options.clearColor := by rw [hr, hs]
  rw [r.pixel_canvas _ _ _ hx hy, s.pixel_canvas _ _ _ hx hy, hlay, hitems, hclear]

/-- The two alpha modes agree: item by item, each colour of premultiplied mode is the
premultiplication of that of straight mode, and in exact arithmetic the pictures are the same. -/
theorem alpha_modes_agree [Memory] :
    (∀ (α : Type) [Scalar α], (∀ x : α, x * 1 = x) → (0 : α) * 0 = 0 →
      ∀ (item : Item α) (ctx : FrameContext α) (p : Point α),
        (item.paint { ctx with premultipliedAlpha := true }).colorAt p
          = ((item.paint { ctx with premultipliedAlpha := false }).colorAt p).premultiply)
    ∧ ∀ (options : Options ℝ) (r s : Renderer ℝ), r.disposed = s.disposed →
      r.options = { options with premultipliedAlpha := true } →
      s.options = { options with premultipliedAlpha := false } →
      ∀ (atlas : Option (Atlas ℝ)) (batches : List (Batch ℝ)) (target : Option (Frame ℝ)),
        (r.draw atlas batches target).map (·.frame)
          = (s.draw atlas batches target).map (·.frame) := by
  constructor
  · intro α _ hone hzero item ctx p
    exact item.colorAt_modes hone hzero ctx p
  · intro options r s hdisposed hr hs atlas batches target
    have htarget : r.targetFrame target = s.targetFrame target := by
      cases target with
      | none =>
        unfold Renderer.targetFrame Renderer.createFrame
        rw [hr, hs]
      | some frame => rfl
    simp only [Renderer.map_frame_draw, hdisposed, htarget,
      Renderer.frame_canvas_modes hr hs atlas batches]

/-- A translucent wave, at a point and in a frame; the two renderers have different scratch
buffers. -/
theorem alpha_modes_agree_wave :
    letI : Memory := .unbounded
    ((Item.underline (α := ℝ) ⟨⟨0, .of 0 0 8 8, .of 0 0 2 1⟩, ⟨0, 0, 1, 0.5⟩, 1, true⟩).paint
        ⟨⟨2, 2⟩, true, 4, false, none⟩).colorAt ⟨0.5, 0.5⟩
      = (((Item.underline (α := ℝ) ⟨⟨0, .of 0 0 8 8, .of 0 0 2 1⟩, ⟨0, 0, 1, 0.5⟩, 1, true⟩).paint
        ⟨⟨2, 2⟩, false, 4, false, none⟩).colorAt ⟨0.5, 0.5⟩).premultiply
    ∧ ((Renderer.mk (α := ℝ) ⟨⟨2, 2⟩, true, 4, false, ⟨1, 0, 0, 1⟩, 2, 6, false⟩ #[7] false).draw
        none [.underlines [⟨⟨0, .of 0 0 8 8, .of 0 0 2 1⟩, ⟨0, 0, 1, 0.5⟩, 1, true⟩]]
        (some (Frame.blank 2 2))).map (·.frame)
      = ((Renderer.mk (α := ℝ) ⟨⟨2, 2⟩, false, 4, false, ⟨1, 0, 0, 1⟩, 2, 6, false⟩ #[] false).draw
        none [.underlines [⟨⟨0, .of 0 0 8 8, .of 0 0 2 1⟩, ⟨0, 0, 1, 0.5⟩, 1, true⟩]]
        (some (Frame.blank 2 2))).map (·.frame) := by
  let _ : Memory := .unbounded
  constructor
  · exact alpha_modes_agree.1 ℝ mul_one (mul_zero 0) _ ⟨⟨2, 2⟩, false, 4, false, none⟩ _
  · refine alpha_modes_agree.2 ⟨⟨2, 2⟩, false, 4, false, ⟨1, 0, 0, 1⟩, 2, 6, false⟩ _ _ ?_ ?_ ?_
      _ _ _
    · rfl
    · rfl
    · rfl

end Raster
