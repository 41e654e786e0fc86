import Raster.Proofs.Renderer

/-!
# What a frame depends on

The viewport and the debug option are options that no picture shows: the
first stage of an item puts the viewport into its device positions, which
drawing does not look at, and the debug option has to do with the log only.
Of the atlas nothing matters but which texture a reference finds, and of
the target nothing but its size. So renderers whose options are alike but
for these two (`Options.DrawAlike`) make the same frame of the same batches,
whatever was drawn before (`Renderer.frame_canvas_congr`).
-/

namespace Raster

variable {α : Type}

/-- Atlases, or none, in which each reference finds the same texture or none. -/
def Atlas.Alike (atlas atlas' : Option (Atlas α)) : Prop :=
  ∀ ref, atlas.bind (·.find? ref) = atlas'.bind (·.find? ref)

/-- Options that differ in the viewport and in the debug option at most. -/
def Options.DrawAlike (options options' : Options α) : Prop :=
  { options with viewport := options'.viewport, debug := options'.debug } = options'

/-- Contexts that differ in the viewport at most, with atlases that are alike. -/
structure FrameContext.Alike (ctx ctx' : FrameContext α) : Prop where
  premultipliedAlpha : ctx.premultipliedAlpha = ctx'.premultipliedAlpha
  shadowSamples : ctx.shadowSamples = ctx'.shadowSamples
  roundSpriteCorners : ctx.roundSpriteCorners = ctx'.roundSpriteCorners
  atlas : Atlas.Alike ctx.atlas ctx'.atlas

namespace Options.DrawAlike

variable {options options' : Options α}

theorem refl (options : Options α) : options.DrawAlike options := rfl

theorem clearColor_eq (h : options.DrawAlike options') :
    options.clearColor = options'.clearColor :=
  congrArg (·.clearColor) h

theorem maxInstances_eq (h : options.DrawAlike options') :
    options.maxInstances = options'.maxInstances :=
  congrArg (·.maxInstances) h

theorem maxPathVertices_eq (h : options.DrawAlike options') :
    options.maxPathVertices = options'.maxPathVertices :=
  congrArg (·.maxPathVertices) h

theorem context_alike (h : options.DrawAlike options') {atlas atlas' : Option (Atlas α)}
    (hatlas : Atlas.Alike atlas atlas') :
    (options.context atlas).Alike (options'.context atlas') where
  premultipliedAlpha := congrArg (·.premultipliedAlpha) h
  shadowSamples := congrArg (·.shadowSamples) h
  roundSpriteCorners := congrArg (·.roundSpriteCorners) h
  atlas := hatlas

end Options.DrawAlike

/-! ## Items -/

theorem Tile.bind_eq (tile : Tile α) (atlas : Option (Atlas α)) :
    tile.bind atlas
      = (atlas.bind (·.find? tile.texture)).map fun texture => ⟨tile.texture, texture⟩ := by
  cases atlas with
  | none => rfl
  | some atlas => cases h : atlas.find? tile.texture <;> simp [bind, h]

theorem Tile.bind_congr {atlas atlas' : Option (Atlas α)} (h : Atlas.Alike atlas atlas')
    (tile : Tile α) : tile.bind atlas = tile.bind atlas' := by
  rw [bind_eq, bind_eq, h]

section
variable [Scalar α]

/-- An item is painted alike in contexts that are alike. -/
theorem Item.paint_congr {ctx ctx' : FrameContext α} (h : ctx.Alike ctx') (item : Item α) :
    item.paint ctx = item.paint ctx' := by
  obtain ⟨viewport, premultiplied, samples, round, atlas⟩ := ctx
  obtain ⟨viewport', premultiplied', samples', round', atlas'⟩ := ctx'
  obtain ⟨rfl, rfl, rfl, hatlas⟩ := h
  cases item with
  | monochromeSprite s =>
    simp only [paint, MonochromeSprite.project, Tile.bind_congr hatlas]
    rfl
  | polychromeSprite s =>
    simp only [paint, PolychromeSprite.project, Tile.bind_congr hatlas]
    rfl
  | _ => rfl

theorem Item.layOn_congr {ctx ctx' : FrameContext α} (h : ctx.Alike ctx') (width height : Nat)
    (pixel : Nat × Nat) :
    Item.layOn ctx width height pixel = Item.layOn ctx' width height pixel := by
  funext below item
  rw [layOn, layOn, item.paint_congr h, h.premultipliedAlpha]

end

/-! ## Batches -/

theorem Plan.items_ofPass_congr {options options' : Options α} (h : options.DrawAlike options')
    (pass : Pass) {β : Type} (item : β → Item α) (instances : List β) :
    (ofPass options pass item instances).items = (ofPass options' pass item instances).items := by
  unfold ofPass
  dsimp only
  rw [h.maxInstances_eq]
  split <;> rfl

theorem Plan.items_ofSprites_congr {options options' : Options α}
    (h : options.DrawAlike options') {atlas atlas' : Option (Atlas α)}
    (hatlas : Atlas.Alike atlas atlas') (pass : Pass) (texture : TextureRef α) {β : Type}
    (item : β → Item α) (sprites : List β) :
    (ofSprites options atlas pass texture item sprites).items
      = (ofSprites options' atlas' pass texture item sprites).items := by
  have hheld (atlas : Option (Atlas α)) : (atlas.map (·.contains texture)).getD false
      = (atlas.bind (·.find? texture)).isSome := by
    cases atlas <;> rfl
  unfold ofSprites
  rw [hheld, hheld, hatlas texture]
  split
  · exact items_ofPass_congr h pass item sprites
  · rfl

theorem Batch.items_plan_congr {options options' : Options α} (h : options.DrawAlike options')
    {atlas atlas' : Option (Atlas α)} (hatlas : Atlas.Alike atlas atlas') (batch : Batch α) :
    (batch.plan options atlas).items = (batch.plan options' atlas').items := by
  cases batch with
  | quads qs => exact Plan.items_ofPass_congr h _ _ qs
  | shadows ss => exact Plan.items_ofPass_congr h _ _ ss
  | monochromeSprites texture ss => exact Plan.items_ofSprites_congr h hatlas _ texture _ ss
  | polychromeSprites texture ss => exact Plan.items_ofSprites_congr h hatlas _ texture _ ss
  | paths ps =>
    unfold plan Plan.ofPaths
    dsimp only
    rw [h.maxPathVertices_eq]
  | underlines us =>
    have hstraight := Plan.items_ofPass_congr h .straightUnderlines Item.underline
      (us.filter (!·.wavy))
    have hwavy := Plan.items_ofPass_congr h .wavyUnderlines Item.underline (us.filter (·.wavy))
    exact congrArg₂ (· ++ ·) hstraight hwavy

theorem Batch.items_congr {options options' : Options α} (h : options.DrawAlike options')
    {atlas atlas' : Option (Atlas α)} (hatlas : Atlas.Alike atlas atlas')
    (batches : List (Batch α)) : items options atlas batches = items options' atlas' batches := by
  simp only [items, List.flatMap_map, items_plan_congr h hatlas]

/-! ## Frames -/

/-- Renderers whose options draw alike make the same frame of the same batches. -/
theorem Renderer.frame_canvas_congr [Scalar α] {r r' : Renderer α}
    (h : r.options.DrawAlike r'.options) {atlas atlas' : Option (Atlas α)}
    (hatlas : Atlas.Alike atlas atlas') (batches : List (Batch α)) {frame frame' : Frame α}
    (hwidth : frame.width = frame'.width) (hheight : frame.height = frame'.height) :
    (r.canvas atlas batches frame).frame = (r'.canvas atlas' batches frame').frame := by
  refine Frame.ext_pixel (by simp [hwidth]) (by simp [hheight]) fun column hx row hy => ?_
  rw [width_canvas] at hx
  rw [height_canvas] at hy
  rw [r.pixel_canvas _ _ _ hx hy, r'.pixel_canvas _ _ _ (hwidth ▸ hx) (hheight ▸ hy),
    Batch.items_congr h hatlas, Item.layOn_congr (h.context_alike hatlas), h.clearColor_eq, hwidth,
    hheight]

end Raster
