import Raster.Scalar.Real
import Raster.Proofs.Batching
import Raster.Proofs.PixelCenters

/-!
# Clipping

A content mask cuts and does nothing else. Where a second stage finds its
point outside the mask it gives transparent black, and everywhere else the
mask does not enter: any other mask that admits the point gives the same
colour (`Item.colorAt_withMask`). The first stage does not look at the
mask at all (`Item.rasterBounds_withMask`).

The point that is tested is the pixel centre, except for monochrome
sprites, whose mask lives in the sprite's own space
(`Item.clipPosition?`). A sprite that keeps its place has its own space
where the frame is, so for it, as for all other primitives, drawing leaves
the pixels outside the mask alone (`Primitive.pixel_drawPrimitive_withMask`).

The frame-level statements ask two things of the arithmetic
(`Scalar.Steady`): a stored zero is not above zero, and inverting an
identity moves no pixel centre. Exact arithmetic has both
(`Scalar.steady_real`), and so have floats as far as the logic knows them
(`Scalar.steady_float`), so that clipping is exact for the arithmetic that
runs, too (`clipping_is_exact_float`).
-/

namespace Raster

variable {α : Type}

/-! ## Changing the mask -/

/-- Another mask for an item. The mask of a triangle is that of its first vertex. -/
def Item.withMask (m : Bounds α) : Item α → Item α
  | quad q => .quad { q with contentMask := m }
  | shadow s => .shadow { s with contentMask := m }
  | monochromeSprite s => .monochromeSprite { s with contentMask := m }
  | polychromeSprite s => .polychromeSprite { s with contentMask := m }
  | triangle t => .triangle { t with a := { t.a with contentMask := m } }
  | underline u => .underline { u with contentMask := m }

def Primitive.withMask (m : Bounds α) : Primitive α → Primitive α
  | quad q => .quad { q with contentMask := m }
  | shadow s => .shadow { s with contentMask := m }
  | monochromeSprite s => .monochromeSprite { s with contentMask := m }
  | polychromeSprite s => .polychromeSprite { s with contentMask := m }
  | path p => .path { p with contentMask := m }
  | underline u => .underline { u with contentMask := m }

variable [Scalar α]

/-- Where the mask of an item is tested for a point of the frame. A sprite without an inverse has
no such place, and shows nothing. -/
def Item.clipPosition? : Item α → Point α → Option (Point α)
  | monochromeSprite s, p => s.transformation.inverse?.map (·.apply p)
  | _, p => some p

/-- Whether a mask keeps an item from a point of the frame. -/
def Item.clippedBy (item : Item α) (m : Bounds α) (p : Point α) : Bool :=
  (item.clipPosition? p).any m.clips

theorem Item.clippedBy_of_clipPosition? {item : Item α} {p q : Point α}
    (h : item.clipPosition? p = some q) (m : Bounds α) : item.clippedBy m p = m.clips q := by
  rw [clippedBy, h, Option.any_some]

/-! ## Second stages

Each of them is compared under a mask `m` and a mask `m'` that admits the point if `m` does. -/

section
variable {m m' : Bounds α} {p : Point α}

theorem Quad.evaluate_withMask (h : m.clips p = false → m'.clips p = false) (q : Quad α)
    (v : QuadVarying α) (ctx : FrameContext α) :
    ({ q with contentMask := m } : Quad α).evaluate v p ctx
      = if m.clips p then Rgba.transparent
        else ({ q with contentMask := m' } : Quad α).evaluate v p ctx := by
  simp only [evaluate]
  cases hm : m.clips p with
  | true => rfl
  | false => rw [h hm]; rfl

theorem Shadow.evaluate_withMask (h : m.clips p = false → m'.clips p = false) (s : Shadow α)
    (v : ShadowVarying α) (ctx : FrameContext α) :
    ({ s with contentMask := m } : Shadow α).evaluate v p ctx
      = if m.clips p then Rgba.transparent
        else ({ s with contentMask := m' } : Shadow α).evaluate v p ctx := by
  simp only [evaluate]
  cases hm : m.clips p with
  | true => rfl
  | false => rw [h hm]; rfl

theorem Underline.evaluate_withMask (h : m.clips p = false → m'.clips p = false)
    (u : Underline α) (v : UnderlineVarying α) (ctx : FrameContext α) :
    ({ u with contentMask := m } : Underline α).evaluate v p ctx
      = if m.clips p then Rgba.transparent
        else ({ u with contentMask := m' } : Underline α).evaluate v p ctx := by
  simp only [evaluate]
  cases hm : m.clips p with
  | true => rfl
  | false => rw [h hm]; rfl

theorem Triangle.evaluate_withMask (h : m.clips p = false → m'.clips p = false) (t : Triangle α)
    (v : TriangleVarying α) (ctx : FrameContext α) :
    ({ t with a := { t.a with contentMask := m } } : Triangle α).evaluate v p ctx
      = if m.clips p then Rgba.transparent
        else ({ t with a := { t.a with contentMask := m' } } : Triangle α).evaluate v p ctx := by
  obtain ⟨edges, origin, curve, dx, dy, fill⟩ := v
  cases edges with
  | none => exact (ite_self _).symm
  | some edges =>
    simp only [evaluate]
    -- the edges are looked at first, and where they admit the point the mask decides
    cases edges.contains p with
    | false => exact (ite_self _).symm
    | true =>
      cases hm : m.clips p with
      | true => rfl
      | false => rw [h hm]; rfl

theorem PolychromeSprite.evaluate_withMask (h : m.clips p = false → m'.clips p = false)
    (s : PolychromeSprite α) (v : PolychromeVarying α) (ctx : FrameContext α) :
    ({ s with contentMask := m } : PolychromeSprite α).evaluate v p ctx
      = if m.clips p then Rgba.transparent
        else ({ s with contentMask := m' } : PolychromeSprite α).evaluate v p ctx := by
  obtain ⟨texture⟩ := v
  cases texture with
  | none => exact (ite_self _).symm
  | some texture =>
    simp only [evaluate]
    cases hm : m.clips p with
    | true => rw [Bool.or_true]; rfl
    | false => rw [h hm]; rfl

/-- The mask of a monochrome sprite is tested at the point mapped back. -/
theorem MonochromeSprite.evaluate_withMask {v : MonochromeVarying α}
    (h : (v.inverse.map (·.apply p)).any m.clips = false →
      (v.inverse.map (·.apply p)).any m'.clips = false)
    (s : MonochromeSprite α) (ctx : FrameContext α) :
    ({ s with contentMask := m } : MonochromeSprite α).evaluate v p ctx
      = if (v.inverse.map (·.apply p)).any m.clips then Rgba.transparent
        else ({ s with contentMask := m' } : MonochromeSprite α).evaluate v p ctx := by
  obtain ⟨color, texture, inverse⟩ := v
  cases inverse with
  | none => cases texture <;> rfl
  | some inverse =>
    rw [Option.map_some, Option.any_some, Option.any_some] at h
    rw [Option.map_some, Option.any_some]
    cases texture with
    | none => exact (ite_self _).symm
    | some texture =>
      simp only [evaluate]
      cases hm : m.clips (inverse.apply p) with
      | true => rw [Bool.or_true]; rfl
      | false => rw [h hm]; rfl

end

namespace Item

theorem rasterBounds_withMask (m : Bounds α) (item : Item α) (ctx : FrameContext α) :
    ((item.withMask m).paint ctx).rasterBounds = (item.paint ctx).rasterBounds := by
  cases item <;> rfl

/-- Under a mask an item has no colour where the mask clips it, and elsewhere the colour that it
has under any mask which admits the point. -/
theorem colorAt_withMask {item : Item α} {m m' : Bounds α} {p : Point α}
    (h : item.clippedBy m p = false → item.clippedBy m' p = false) (ctx : FrameContext α) :
    ((item.withMask m).paint ctx).colorAt p
      = if item.clippedBy m p then Rgba.transparent
        else ((item.withMask m').paint ctx).colorAt p := by
  cases item with
  | quad q => exact q.evaluate_withMask h _ ctx
  | shadow s => exact s.evaluate_withMask h _ ctx
  | monochromeSprite s =>
    exact MonochromeSprite.evaluate_withMask (v := (s.project ctx).varying) h s ctx
  | polychromeSprite s => exact s.evaluate_withMask h _ ctx
  | triangle t => exact t.evaluate_withMask h _ ctx
  | underline u => exact u.evaluate_withMask h _ ctx

end Item

/-! ## What a primitive is drawn as -/

omit [Scalar α] in
theorem Plan.items_ofPass_map {β : Type} {f : β → β} {g : Item α → Item α} {item : β → Item α}
    (h : ∀ b, item (f b) = g (item b)) (options : Options α) (pass : Pass) (instances : List β) :
    (Plan.ofPass options pass item (instances.map f)).items
      = (Plan.ofPass options pass item instances).items.map g := by
  have hmap (bs : List β) : (bs.map f).map item = (bs.map item).map g := by
    rw [List.map_map, List.map_map]
    exact List.map_congr_left fun b _ => h b
  unfold Plan.ofPass
  dsimp only
  rw [List.length_map]
  split
  · rw [← List.map_take]
    exact hmap _
  · exact hmap instances

omit [Scalar α] in
theorem Plan.items_ofSprites_map {β : Type} {f : β → β} {g : Item α → Item α}
    {item : β → Item α} (h : ∀ b, item (f b) = g (item b)) (options : Options α)
    (atlas : Option (Atlas α)) (pass : Pass) (texture : TextureRef α) (sprites : List β) :
    (Plan.ofSprites options atlas pass texture item (sprites.map f)).items
      = (Plan.ofSprites options atlas pass texture item sprites).items.map g := by
  unfold Plan.ofSprites
  split
  · exact Plan.items_ofPass_map h options pass sprites
  · rfl

omit [Scalar α] in
theorem Plan.exists_of_mem_ofPass {β : Type} {options : Options α} {pass : Pass}
    {make : β → Item α} {instances : List β} {item : Item α}
    (h : item ∈ (Plan.ofPass options pass make instances).items) :
    ∃ b ∈ instances, make b = item := by
  unfold Plan.ofPass at h
  dsimp only at h
  split at h
  · obtain ⟨b, hb, rfl⟩ := List.mem_map.mp h
    exact ⟨b, List.mem_of_mem_take hb, rfl⟩
  · exact List.mem_map.mp h

omit [Scalar α] in
theorem Plan.exists_of_mem_ofSprites {β : Type} {options : Options α} {atlas : Option (Atlas α)}
    {pass : Pass} {texture : TextureRef α} {make : β → Item α} {sprites : List β} {item : Item α}
    (h : item ∈ (Plan.ofSprites options atlas pass texture make sprites).items) :
    ∃ b ∈ sprites, make b = item := by
  unfold Plan.ofSprites at h
  split at h
  · exact Plan.exists_of_mem_ofPass h
  · cases h

omit [Scalar α] in
theorem Triangle.ofRecords_map (f : VertexRecord α → VertexRecord α)
    (records : List (VertexRecord α)) :
    ofRecords (records.map f) = (ofRecords records).map fun t => ⟨f t.a, f t.b, f t.c⟩ := by
  induction records using ofRecords.induct with
  | case1 a b c rest ih => simp only [List.map_cons, ofRecords, ih]
  | case2 records hshort =>
    rcases records with _ | ⟨a, _ | ⟨b, _ | ⟨c, rest⟩⟩⟩
    · rfl
    · rfl
    · rfl
    · exact absurd rfl (hshort a b c rest)

namespace Primitive

/-- A primitive with another mask is painted as its items with that mask. -/
theorem map_paint_items_withMask (m : Bounds α) (p : Primitive α) (options : Options α)
    (atlas : Option (Atlas α)) (ctx : FrameContext α) :
    ((p.withMask m).items options atlas).map (Item.paint ctx)
      = ((p.items options atlas).map (Item.withMask m)).map (Item.paint ctx) := by
  cases p with
  | quad q =>
    exact congrArg _ (Plan.items_ofPass_map (f := fun q : Quad α => { q with contentMask := m })
      (fun _ => rfl) options .quads [q])
  | shadow s =>
    exact congrArg _ (Plan.items_ofPass_map (f := fun s : Shadow α => { s with contentMask := m })
      (fun _ => rfl) options .shadows [s])
  | monochromeSprite s =>
    exact congrArg _ (Plan.items_ofSprites_map
      (f := fun s : MonochromeSprite α => { s with contentMask := m })
      (fun _ => rfl) options atlas .monochromeSprites s.tile.texture [s])
  | polychromeSprite s =>
    exact congrArg _ (Plan.items_ofSprites_map
      (f := fun s : PolychromeSprite α => { s with contentMask := m })
      (fun _ => rfl) options atlas .polychromeSprites s.tile.texture [s])
  | path p =>
    have hrecords : Path.records { p with contentMask := m }
        = p.records.map fun r => { r with contentMask := m } := by
      simp only [Path.records, List.map_map]
      rfl
    simp only [withMask, items, alone, Batch.plan, Plan.ofPaths, Path.flatten,
      List.flatMap_singleton, hrecords, ← List.map_take, Triangle.ofRecords_map, List.map_map]
    -- the masks of a triangle's second and third vertex are not looked at
    rfl
  | underline u =>
    have hpass (pass : Pass) (wanted : Underline α → Bool)
        (hwanted : wanted { u with contentMask := m } = wanted u) :
        (Plan.ofPass options pass .underline
          ([({ u with contentMask := m } : Underline α)].filter wanted)).items
        = (Plan.ofPass options pass .underline ([u].filter wanted)).items.map
            (Item.withMask m) := by
      have hfilter : [({ u with contentMask := m } : Underline α)].filter wanted
          = ([u].filter wanted).map fun u => { u with contentMask := m } := by
        rw [List.filter_singleton, List.filter_singleton, hwanted]
        cases wanted u <;> rfl
      rw [hfilter]
      exact Plan.items_ofPass_map (f := fun u : Underline α => { u with contentMask := m })
        (fun _ => rfl) options pass _
    refine congrArg _ ?_
    simp only [withMask, items, alone, Batch.plan, Plan.append, List.map_append]
    rw [hpass _ _ rfl, hpass _ _ rfl]

omit [Scalar α] in
/-- Only a monochrome sprite is drawn as one, and it is drawn as itself. -/
theorem eq_of_mem_items {p : Primitive α} {s : MonochromeSprite α} {options : Options α}
    {atlas : Option (Atlas α)} (h : Item.monochromeSprite s ∈ p.items options atlas) :
    p = monochromeSprite s := by
  cases p with
  | quad q =>
    obtain ⟨_, _, hitem⟩ := Plan.exists_of_mem_ofPass h
    cases hitem
  | shadow t =>
    obtain ⟨_, _, hitem⟩ := Plan.exists_of_mem_ofPass h
    cases hitem
  | monochromeSprite t =>
    obtain ⟨t', ht', hitem⟩ := Plan.exists_of_mem_ofSprites h
    cases hitem
    rw [List.mem_singleton.mp ht']
  | polychromeSprite t =>
    obtain ⟨_, _, hitem⟩ := Plan.exists_of_mem_ofSprites h
    cases hitem
  | path q =>
    obtain ⟨_, _, hitem⟩ := List.mem_map.mp h
    cases hitem
  | underline u =>
    rcases List.mem_append.mp h with h | h
    · obtain ⟨_, _, hitem⟩ := Plan.exists_of_mem_ofPass h
      cases hitem
    · obtain ⟨_, _, hitem⟩ := Plan.exists_of_mem_ofPass h
      cases hitem

/-- Whether a primitive lies where its bounds say: all do but transformed sprites. -/
def keepsPlace : Primitive α → Bool
  | monochromeSprite s => s.transformation.isIdentity
  | _ => true

end Primitive

/-! ## Drawing a primitive -/

/-- What drawing asks of the arithmetic at a pixel: the stored zero is not above zero, and the
inverse of an identity leaves the centre of the pixel where it is. -/
structure Scalar.Steady (α : Type) [Scalar α] (pixel : Nat × Nat) : Prop where
  store_zero : (Scalar.store 0 : α) ≤ 0
  inverse_identity : ∀ t : Transformation α, t.isIdentity = true →
    ∃ inverse, t.inverse? = some inverse ∧ inverse.apply (pixelCenter pixel) = pixelCenter pixel

theorem Primitive.clipPosition?_of_mem_items {p : Primitive α} (hp : p.keepsPlace = true)
    {pixel : Nat × Nat} (hsteady : Scalar.Steady α pixel) {options : Options α}
    {atlas : Option (Atlas α)} {item : Item α} (hitem : item ∈ p.items options atlas) :
    item.clipPosition? (pixelCenter pixel) = some (pixelCenter pixel) := by
  cases item with
  | monochromeSprite s =>
    obtain rfl := Primitive.eq_of_mem_items hitem
    obtain ⟨inverse, hinverse, hcenter⟩ := hsteady.inverse_identity _ hp
    rw [Item.clipPosition?, hinverse, Option.map_some, hcenter]
  | _ => rfl

theorem Rgba.transparent_onto (hstore : (Scalar.store 0 : α) ≤ 0) (premultiplied : Bool)
    (below : Rgba α) : (transparent : Rgba α).store.onto premultiplied below = below :=
  if_pos hstore

/-- On one pixel, an item under a mask does what it does under any mask that admits the centre, or
nothing. -/
theorem Item.layOn_withMask {item : Item α} {pixel : Nat × Nat}
    (hposition : item.clipPosition? (pixelCenter pixel) = some (pixelCenter pixel))
    (hstore : (Scalar.store 0 : α) ≤ 0) {m m' : Bounds α}
    (h : m.clips (pixelCenter pixel) = false → m'.clips (pixelCenter pixel) = false)
    (ctx : FrameContext α) (width height : Nat) (below : Rgba α) :
    (item.withMask m).layOn ctx width height pixel below
      = if m.clips (pixelCenter pixel) then below
        else (item.withMask m').layOn ctx width height pixel below := by
  have hclipped (m : Bounds α) := item.clippedBy_of_clipPosition? hposition m
  rw [← hclipped m, ← hclipped m'] at h
  have hcolor := item.colorAt_withMask h ctx
  rw [hclipped m] at hcolor
  unfold layOn
  dsimp only
  rw [rasterBounds_withMask m, rasterBounds_withMask m', hcolor]
  cases m.clips (pixelCenter pixel) with
  | true => rw [if_pos rfl, if_pos rfl, Rgba.transparent_onto hstore, ite_self]
  | false => rfl

namespace Canvas

theorem draw_congr {ctx : FrameContext α} {item item' : Item α}
    (h : item.paint ctx = item'.paint ctx) (canvas : Canvas α) :
    draw ctx canvas item = draw ctx canvas item' := by
  unfold draw
  rw [h]

theorem foldl_draw_congr {ctx : FrameContext α} {items items' : List (Item α)}
    (h : items.map (Item.paint ctx) = items'.map (Item.paint ctx)) (canvas : Canvas α) :
    items.foldl (draw ctx) canvas = items'.foldl (draw ctx) canvas := by
  induction items generalizing items' canvas with
  | nil =>
    rw [List.map_eq_nil_iff.mp h.symm]
  | cons item rest ih =>
    obtain ⟨item', rest', rfl, hitem, hrest⟩ := List.map_eq_cons_iff.mp h.symm
    rw [List.foldl_cons, List.foldl_cons, draw_congr hitem, ih hrest.symm]

/-- Draws one primitive by itself. -/
def drawPrimitive (options : Options α) (atlas : Option (Atlas α)) (canvas : Canvas α)
    (p : Primitive α) : Canvas α :=
  (p.items options atlas).foldl (draw (options.context atlas)) canvas

end Canvas

/-- Drawn under a mask, a primitive leaves the pixels whose centres the mask clips as they are, and
does to the others what it does under any mask that admits them. -/
theorem Primitive.pixel_drawPrimitive_withMask {p : Primitive α} (hp : p.keepsPlace = true)
    {canvas : Canvas α} {column row : Nat} (hx : column < canvas.frame.width)
    (hy : row < canvas.frame.height) (hsteady : Scalar.Steady α (column, row)) {m m' : Bounds α}
    (h : m.clips (pixelCenter (column, row)) = false → m'.clips (pixelCenter (column, row)) = false)
    (options : Options α) (atlas : Option (Atlas α)) :
    (canvas.drawPrimitive options atlas (p.withMask m)).frame.pixel column row
      = if m.clips (pixelCenter (column, row)) then canvas.frame.pixel column row
        else (canvas.drawPrimitive options atlas (p.withMask m')).frame.pixel column row := by
  have hpixel (m : Bounds α) :
      (canvas.drawPrimitive options atlas (p.withMask m)).frame.pixel column row
        = (p.items options atlas).foldl
            (fun below item => (item.withMask m).layOn (options.context atlas) canvas.frame.width
              canvas.frame.height (column, row) below)
            (canvas.frame.pixel column row) := by
    unfold Canvas.drawPrimitive
    rw [Canvas.foldl_draw_congr (p.map_paint_items_withMask m options atlas _) canvas,
      Canvas.pixel_foldl_draw _ _ _ hx hy, List.foldl_map]
  have hposition : ∀ item ∈ p.items options atlas,
      item.clipPosition? (pixelCenter (column, row)) = some (pixelCenter (column, row)) :=
    fun item hitem => Primitive.clipPosition?_of_mem_items hp hsteady hitem
  rw [hpixel m, hpixel m']
  generalize p.items options atlas = items at hposition
  generalize canvas.frame.pixel column row = below
  induction items generalizing below with
  | nil => exact (ite_self _).symm
  | cons item rest ih =>
    have hlay := item.layOn_withMask (hposition item (List.mem_cons_self ..)) hsteady.store_zero
      h (options.context atlas) canvas.frame.width canvas.frame.height below
    rw [List.foldl_cons, List.foldl_cons, ih fun i hi => hposition i (List.mem_cons_of_mem _ hi),
      hlay]
    cases m.clips (pixelCenter (column, row)) <;> rfl

/-! ## Exact arithmetic -/

theorem Transformation.eq_identity {t : Transformation ℝ} (h : t.isIdentity = true) :
    t = identity := by
  obtain ⟨a, b, c, d, tx, ty⟩ := t
  simp only [isIdentity, Bool.and_eq_true] at h
  obtain ⟨⟨⟨⟨⟨ha, hb⟩, hc⟩, hd⟩, htx⟩, hty⟩ := h
  obtain rfl : a = 1 := of_decide_eq_true ha
  obtain rfl : b = 0 := of_decide_eq_true hb
  obtain rfl : c = 0 := of_decide_eq_true hc
  obtain rfl : d = 1 := of_decide_eq_true hd
  obtain rfl : tx = 0 := of_decide_eq_true htx
  obtain rfl : ty = 0 := of_decide_eq_true hty
  rfl

theorem Transformation.inverse?_identity :
    (identity : Transformation ℝ).inverse? = some identity := by
  have hdet : (identity : Transformation ℝ).det = 1 := by
    simp only [det, identity]
    norm_num
  have hregular : ¬ Scalar.abs (1 : ℝ) < minDet := by
    show ¬ |(1 : ℝ)| < 1e-12
    norm_num
  unfold inverse?
  rw [hdet, if_neg hregular]
  simp [identity]

theorem Transformation.apply_identity (p : Point ℝ) : identity.apply p = p := by
  simp [identity, apply]

/-- A mask clips what is beyond one of its sides; a mask of negative extent clips everything. -/
theorem Bounds.clips_iff {m : Bounds ℝ} {p : Point ℝ} :
    m.clips p = true ↔ (p.x < m.origin.x ∨ m.origin.x + m.size.width < p.x)
      ∨ p.y < m.origin.y ∨ m.origin.y + m.size.height < p.y := by
  simp only [clips, ClipDistances.isClipped, ClipDistances.of, Bool.or_eq_true,
    decide_eq_true_iff, sub_neg, or_assoc]

theorem Scalar.steady_real (pixel : Nat × Nat) : Scalar.Steady ℝ pixel where
  store_zero := le_refl 0
  inverse_identity t ht := by
    obtain rfl := Transformation.eq_identity ht
    exact ⟨_, Transformation.inverse?_identity, Transformation.apply_identity _⟩

/-! ## Binary floating point -/

/-- Drawing asks nothing of floats but that the conversion to 32 bits, of which the logic does not
know how it is done, leaves zero alone. -/
theorem Scalar.steady_float (hstore : (Scalar.store 0 : Float) ≤ 0) {column row : Nat}
    (hcolumn : column < 2 ^ 52) (hrow : row < 2 ^ 52) : Scalar.Steady Float (column, row) where
  store_zero := hstore
  inverse_identity t ht := by
    obtain ⟨inverse, hinverse, hidentity⟩ := Transformation.exists_inverse?_of_isIdentity ht
    exact ⟨inverse, hinverse, Transformation.apply_of_isIdentity hidentity
      (Binary64.held_add_half hcolumn) (Binary64.held_add_half hrow)⟩

/-! ## Clipping is exact -/

/-- A mask does not move what is drawn, and a point is either clipped, which leaves no colour, or
shaded as if there were no mask. In a frame the pixels whose centres are outside the mask stay as
they are, and the others become what they become under any mask that admits them. -/
theorem clipping_is_exact :
    (∀ (α : Type) [Scalar α] (item : Item α) (ctx : FrameContext α) (m m' : Bounds α)
        (p : Point α),
      ((item.withMask m).paint ctx).rasterBounds = (item.paint ctx).rasterBounds
      ∧ (item.clippedBy m p = true →
          ((item.withMask m).paint ctx).colorAt p = Rgba.transparent)
      ∧ (item.clippedBy m p = false → item.clippedBy m' p = false →
          ((item.withMask m).paint ctx).colorAt p = ((item.withMask m').paint ctx).colorAt p))
    ∧ ∀ (α : Type) [Scalar α] (p : Primitive α), p.keepsPlace = true →
      ∀ (options : Options α) (atlas : Option (Atlas α)) (canvas : Canvas α) (column row : Nat),
        column < canvas.frame.width → row < canvas.frame.height →
        Scalar.Steady α (column, row) → ∀ m m' : Bounds α,
          (m.clips (pixelCenter (column, row)) = true →
            (canvas.drawPrimitive options atlas (p.withMask m)).frame.pixel column row
              = canvas.frame.pixel column row)
          ∧ (m.clips (pixelCenter (column, row)) = false →
              m'.clips (pixelCenter (column, row)) = false →
            (canvas.drawPrimitive options atlas (p.withMask m)).frame.pixel column row
              = (canvas.drawPrimitive options atlas (p.withMask m')).frame.pixel column row) := by
  constructor
  · intro α _ item ctx m m' p
    refine ⟨item.rasterBounds_withMask m ctx, fun hclipped => ?_, fun hm hm' => ?_⟩
    · rw [Item.colorAt_withMask id ctx, if_pos hclipped]
    · rw [Item.colorAt_withMask (fun _ => hm') ctx, if_neg (Bool.eq_false_iff.mp hm)]
  · intro α _ p hp options atlas canvas column row hx hy hsteady m m'
    refine ⟨fun hclipped => ?_, fun hm hm' => ?_⟩
    · rw [p.pixel_drawPrimitive_withMask hp hx hy hsteady id, if_pos hclipped]
    · rw [p.pixel_drawPrimitive_withMask hp hx hy hsteady (fun _ => hm'),
        if_neg (Bool.eq_false_iff.mp hm)]

/-- A moved sprite under a mask that admits the point of the frame but not the point mapped back,
and an underline of which the mask shows the second pixel only. -/
theorem clipping_is_exact_sprite_and_underline :
    let options : Options ℝ := ⟨⟨2, 1⟩, true, 4, false, Rgba.transparent, 2, 6, false⟩
    let canvas : Canvas ℝ := ⟨Frame.blank 2 1, #[]⟩
    let sprite : Item ℝ := .monochromeSprite ⟨⟨0, .of 1 0 1 1, .of 0 0 1 1⟩, ⟨0, 0, 1, 1⟩,
      ⟨.numbered ⟨.monochrome, 0⟩, .of 0 0 1 1⟩, ⟨1, 0, 0, 1, 1, 0⟩⟩
    let line (mask : Bounds ℝ) : Primitive ℝ :=
      .underline ⟨⟨0, mask, .of 0 0 2 1⟩, ⟨0, 0, 1, 1⟩, 1, false⟩
    (sprite.clippedBy (.of 1 0 1 1) ⟨1.5, 0.5⟩ = true
      ∧ (sprite.paint ⟨⟨2, 1⟩, true, 4, false, none⟩).colorAt ⟨1.5, 0.5⟩ = Rgba.transparent)
    ∧ (canvas.drawPrimitive options none (line (.of 1 0 1 1))).frame.pixel 0 0
        = canvas.frame.pixel 0 0
    ∧ (canvas.drawPrimitive options none (line (.of 1 0 1 1))).frame.pixel 1 0
        = (canvas.drawPrimitive options none (line (.of 0 0 2 1))).frame.pixel 1 0 := by
  intro options canvas sprite line
  have hinverse : (⟨1, 0, 0, 1, 1, 0⟩ : Transformation ℝ).inverse? = some ⟨1, 0, 0, 1, -1, 0⟩ := by
    have hregular : ¬ Scalar.abs (1 : ℝ) < Transformation.minDet := by
      show ¬ |(1 : ℝ)| < 1e-12
      norm_num
    simp [Transformation.inverse?, Transformation.det, hregular]
  have hclipped : sprite.clippedBy (.of 1 0 1 1) ⟨1.5, 0.5⟩ = true := by
    rw [Item.clippedBy, Item.clipPosition?, hinverse]
    exact Bounds.clips_iff.mpr (Or.inl (Or.inl (by norm_num [Transformation.apply, Bounds.of])))
  have hcenter (column : Nat) :
      pixelCenter (column, 0) = (⟨column + 1 / 2, 1 / 2⟩ : Point ℝ) := by
    norm_num [pixelCenter, Scalar.ofNat_eq_natCast]
  have hfirst : (Bounds.of 1 0 1 1 : Bounds ℝ).clips (pixelCenter (0, 0)) = true := by
    rw [hcenter, Bounds.clips_iff]
    norm_num [Bounds.of]
  have hsecond : (Bounds.of 1 0 1 1 : Bounds ℝ).clips (pixelCenter (1, 0)) = false := by
    rw [hcenter, Bool.eq_false_iff, ne_eq, Bounds.clips_iff]
    norm_num [Bounds.of]
  have hwhole : (Bounds.of 0 0 2 1 : Bounds ℝ).clips (pixelCenter (1, 0)) = false := by
    rw [hcenter, Bool.eq_false_iff, ne_eq, Bounds.clips_iff]
    norm_num [Bounds.of]
  obtain ⟨hitems, hdrawn⟩ := clipping_is_exact
  refine ⟨⟨hclipped, ?_⟩, ?_, ?_⟩
  · exact (hitems ℝ sprite ⟨⟨2, 1⟩, true, 4, false, none⟩ (.of 1 0 1 1) (.of 1 0 1 1) _).2.1
      hclipped
  · exact (hdrawn ℝ (line (.of 1 0 1 1)) rfl options none canvas 0 0 (by decide) (by decide)
      (Scalar.steady_real _) (.of 1 0 1 1) (.of 0 0 2 1)).1 hfirst
  · exact (hdrawn ℝ (line (.of 1 0 1 1)) rfl options none canvas 1 0 (by decide) (by decide)
      (Scalar.steady_real _) (.of 1 0 1 1) (.of 0 0 2 1)).2 hsecond hwhole

/-- What a mask does to the pixels of a frame in binary floating point. -/
theorem clipping_is_exact_float (hstore : (Scalar.store 0 : Float) ≤ 0) {p : Primitive Float}
    (hp : p.keepsPlace = true) (options : Options Float) (atlas : Option (Atlas Float))
    {canvas : Canvas Float} {column row : Nat} (hx : column < canvas.frame.width)
    (hy : row < canvas.frame.height) (hcolumn : column < 2 ^ 52) (hrow : row < 2 ^ 52)
    (m m' : Bounds Float) :
    (m.clips (pixelCenter (column, row)) = true →
        (canvas.drawPrimitive options atlas (p.withMask m)).frame.pixel column row
          = canvas.frame.pixel column row)
      ∧ (m.clips (pixelCenter (column, row)) = false →
          m'.clips (pixelCenter (column, row)) = false →
        (canvas.drawPrimitive options atlas (p.withMask m)).frame.pixel column row
          = (canvas.drawPrimitive options atlas (p.withMask m')).frame.pixel column row) := by
  have hsteady := Scalar.steady_float hstore hcolumn hrow
  refine ⟨fun hclipped => ?_, fun hm hm' => ?_⟩
  · rw [p.pixel_drawPrimitive_withMask hp hx hy hsteady id, if_pos hclipped]
  · rw [p.pixel_drawPrimitive_withMask hp hx hy hsteady (fun _ => hm'),
      if_neg (Bool.eq_false_iff.mp hm)]

end Raster
