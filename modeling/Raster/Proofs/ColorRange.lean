import Raster.Scalar.Real
import Raster.Proofs.Atlas
import Raster.Proofs.Clipping
import Raster.Proofs.Compositing
import Raster.Proofs.Hsl
import Raster.Proofs.Picture
import Raster.Proofs.Texture

/-!
# The range of colours

In exact arithmetic no step from a style to a stored pixel leaves the range
that it should keep to. Straight colours have channels from 0 to 1
(`Rgba.InRange`): those that styles name, in linear light or encoded, mixes
of them, and texels (`Texture.sample_inRange`). A contribution adds a
colour that is nowhere brighter than its alpha (`Rgba.Fits`), in both alpha
modes; every item without a blur gives such contributions
(`Item.colorAt_fits`). And a pixel that holds a premultiplied colour goes
on holding one (`Rgba.onto_valid`).

Geometry does not enter: coverages are clamped, and positions only decide
how far to mix.
-/

namespace Raster

/-- A mean of two numbers of the interval, with weights that are not negative. -/
theorem weightedMean_mem {x y u w : ℝ} (hx : x ∈ Set.Icc (0 : ℝ) 1) (hy : y ∈ Set.Icc (0 : ℝ) 1)
    (hu : 0 ≤ u) (hw : 0 ≤ w) (hsum : 0 < u + w) :
    (x * u + y * w) / (u + w) ∈ Set.Icc (0 : ℝ) 1 := by
  constructor
  · exact div_nonneg (add_nonneg (mul_nonneg hx.1 hu) (mul_nonneg hy.1 hw)) hsum.le
  · rw [div_le_one hsum]
    exact add_le_add (mul_le_of_le_one_left hu hx.2) (mul_le_of_le_one_left hw hy.2)

/-! ## Straight colours -/

/-- Every channel is between 0 and 1. -/
structure Rgba.InRange (c : Rgba ℝ) : Prop where
  r : c.r ∈ Set.Icc (0 : ℝ) 1
  g : c.g ∈ Set.Icc (0 : ℝ) 1
  b : c.b ∈ Set.Icc (0 : ℝ) 1
  a : c.a ∈ Set.Icc (0 : ℝ) 1

namespace Rgba.InRange

theorem transparent : (transparent : Rgba ℝ).InRange := by
  have hzero : (0 : ℝ) ∈ Set.Icc (0 : ℝ) 1 := unitInterval.zero_mem
  exact ⟨hzero, hzero, hzero, hzero⟩

section
variable {c d : Rgba ℝ} (hc : c.InRange)
include hc

theorem decode : c.decode.InRange :=
  ⟨decodeChannel_mem hc.r.1 hc.r.2, decodeChannel_mem hc.g.1 hc.g.2,
    decodeChannel_mem hc.b.1 hc.b.2, hc.a⟩

theorem encode : c.encode.InRange :=
  ⟨encodeChannel_mem hc.r.1 hc.r.2, encodeChannel_mem hc.g.1 hc.g.2,
    encodeChannel_mem hc.b.1 hc.b.2, hc.a⟩

theorem toGray : c.toGray.InRange := by
  have hluma : c.r * 0.2126 + c.g * 0.7152 + c.b * 0.0722 ∈ Set.Icc (0 : ℝ) 1 := by
    obtain ⟨⟨hr, hr'⟩, ⟨hg, hg'⟩, ⟨hb, hb'⟩, -⟩ := hc
    constructor <;> linarith
  exact ⟨hluma, hluma, hluma, hc.a⟩

theorem lerp (hd : d.InRange) {t : ℝ} (ht : t ∈ Set.Icc (0 : ℝ) 1) : (c.lerp d t).InRange :=
  ⟨lerp_mem hc.r hd.r ht, lerp_mem hc.g hd.g ht, lerp_mem hc.b hd.b ht, lerp_mem hc.a hd.a ht⟩

theorem coveredBy (hd : d.InRange) : (c.coveredBy d).InRange := by
  have hweight : 0 ≤ c.a * (1 - d.a) := mul_nonneg hc.a.1 (sub_nonneg.mpr hd.a.2)
  unfold Rgba.coveredBy
  dsimp only
  split_ifs with hempty
  · exact transparent
  · have hsum : 0 < d.a + c.a * (1 - d.a) := not_le.mp hempty
    exact ⟨weightedMean_mem hd.r hc.r hd.a.1 hweight hsum,
      weightedMean_mem hd.g hc.g hd.a.1 hweight hsum,
      weightedMean_mem hd.b hc.b hd.a.1 hweight hsum, alpha_overlay_mem hc.a hd.a⟩

end

end Rgba.InRange

/-- Saturation, lightness and alpha are between 0 and 1; the hue may be any number. -/
structure Hsla.InRange (c : Hsla ℝ) : Prop where
  s : c.s ∈ Set.Icc (0 : ℝ) 1
  l : c.l ∈ Set.Icc (0 : ℝ) 1
  a : c.a ∈ Set.Icc (0 : ℝ) 1

theorem Hsla.InRange.toLinear {c : Hsla ℝ} (hc : c.InRange) : c.toLinear.InRange := by
  obtain ⟨hr, hg, hb⟩ := toSrgb_mem (chroma_nonneg hc.s hc.l)
  have hsubset : Set.Icc c.base (c.base + c.chroma) ⊆ Set.Icc (0 : ℝ) 1 :=
    Set.Icc_subset_Icc (base_nonneg hc.s hc.l) (base_add_chroma_le_one hc.s hc.l)
  have hsrgb : c.toSrgb.InRange :=
    ⟨hsubset hr, hsubset hg, hsubset hb, by rw [alpha_toSrgb]; exact hc.a⟩
  exact hsrgb.decode

/-! ## Fills -/

/-- A fill with colours in range, which are not mixed in Oklab. -/
def Fill.InRange : Fill ℝ → Prop
  | .solid color => color.InRange
  | .linear g => g.first.color.InRange ∧ g.last.color.InRange ∧ g.space ≠ .oklab

/-- Stops may lie anywhere, in any order: what mixes is clamped. -/
theorem Fill.InRange.colorAt {fill : Fill ℝ} (hfill : fill.InRange) (p : Point ℝ)
    (bounds : Bounds ℝ) : (fill.prepare.colorAt p bounds).InRange := by
  cases fill with
  | solid color => exact Hsla.InRange.toLinear hfill
  | linear g =>
    obtain ⟨hfirst, hlast, hspace⟩ := hfill
    have ht : gradientParameter g.angle g.first.position g.last.position p bounds
        ∈ Set.Icc (0 : ℝ) 1 := saturate_mem _
    rw [prepare, PreparedFill.colorAt]
    dsimp only
    cases hg : g.space with
    | srgb => exact (hfirst.toLinear.encode.lerp hlast.toLinear.encode ht).decode
    | oklab => exact absurd hg hspace
    | linear => exact hfirst.toLinear.lerp hlast.toLinear ht

/-! ## Textures -/

/-- Every texel is between 0 and 1. -/
def Texture.InRange (t : Texture ℝ) : Prop := ∀ x ∈ t.texels, x ∈ Set.Icc (0 : ℝ) 1

namespace Texture

theorem texelOfByte_mem (kind : TextureKind) (position : Nat) (byte : UInt8) :
    (texelOfByte kind position byte : ℝ) ∈ Set.Icc (0 : ℝ) 1 := by
  have hfraction := fraction_mem byte
  cases kind with
  | monochrome => exact hfraction
  | polychrome =>
    unfold texelOfByte
    dsimp only
    split
    · exact hfraction
    · exact decodeChannel_mem hfraction.1 hfraction.2

theorem inRange_of_ofBytes {kind : TextureKind} {width height : ℝ} {bytes : List UInt8}
    {t : Texture ℝ} (h : ofBytes kind width height bytes = .ok t) : t.InRange := by
  unfold ofBytes at h
  split at h
  · split at h
    · cases h
      intro x hx
      obtain ⟨i, hi, rfl⟩ := List.mem_mapIdx.mp (List.mem_toArray.mp hx)
      exact texelOfByte_mem kind i _
    · cases h
  · cases h

section
variable {t : Texture ℝ} (ht : t.InRange)
include ht

theorem texel_mem (column row channel : Nat) : t.texel column row channel ∈ Set.Icc (0 : ℝ) 1 := by
  unfold texel
  cases hx : t.texels[(row * t.width + column) * t.kind.channels + channel]? with
  | none => exact unitInterval.zero_mem
  | some x => exact ht x (Array.mem_of_getElem? hx)

/-- Filtering keeps to the range, anywhere inside the texture or outside. -/
theorem sample_inRange (uv : Point ℝ) : (t.sample uv).InRange := by
  have hchannel (channel : ℕ) :=
    filtered_mem (fun column row _ _ => texel_mem ht column row channel)
      (uv.x * Scalar.ofNat t.width - 0.5) (uv.y * Scalar.ofNat t.height - 0.5)
  unfold sample
  cases t.kind with
  | monochrome => exact ⟨hchannel 0, hchannel 0, hchannel 0, hchannel 0⟩
  | polychrome => exact ⟨hchannel 0, hchannel 1, hchannel 2, hchannel 3⟩

end

end Texture

/-- An addition keeps the textures of an atlas in range. -/
theorem Atlas.inRange_of_add {atlas : Atlas ℝ} (h : ∀ entry ∈ atlas.textures, entry.2.InRange)
    (kind : TextureKind) (width height : ℝ) (bytes : List UInt8) :
    ∀ entry ∈ (atlas.perform (.add kind width height bytes)).2.textures, entry.2.InRange := by
  rw [perform_add]
  split
  next t ht =>
    intro entry hentry
    rcases List.mem_append.mp hentry with hold | hnew
    · exact h entry hold
    · obtain rfl := List.mem_singleton.mp hnew
      exact Texture.inRange_of_ofBytes ht
  next => exact h

/-- Textures are only ever made from bytes. -/
theorem Atlas.Built.inRange {atlas : Atlas ℝ} (h : atlas.Built) :
    ∀ entry ∈ atlas.textures, entry.2.InRange := by
  induction h with
  | empty => exact fun entry hentry => absurd hentry (List.not_mem_nil)
  | add _ kind width height bytes ih => exact inRange_of_add ih kind width height bytes
  | addPng _ inflate file ih =>
    rw [perform_addPngWith]
    split
    · exact inRange_of_add ih _ _ _ _
    · exact ih
  | erase _ ref ih =>
    cases ref with
    | numbered id => exact fun entry hentry => ih entry (List.mem_filter.mp hentry).1
    | stray kind number => exact ih
  | clear => exact fun entry hentry => absurd hentry (List.not_mem_nil)

/-- A tile finds nothing but textures that are in range. -/
theorem Tile.sample_inRange {tile : Tile ℝ} {atlas : Option (Atlas ℝ)} {bound : BoundTexture ℝ}
    (hatlas : ∀ a, atlas = some a → a.Built) (hbound : tile.bind atlas = some bound)
    (unit : Point ℝ) : (tile.sample bound unit).InRange := by
  obtain ⟨a, ha, hfind⟩ := Option.bind_eq_some_iff.mp hbound
  obtain ⟨t, ht, hbound⟩ := Option.bind_eq_some_iff.mp hfind
  cases hbound
  refine Texture.sample_inRange ?_ _
  cases href : tile.texture with
  | numbered id =>
    rw [href] at ht
    obtain ⟨before, after, hsplit, -⟩ := List.lookup_eq_some_iff.mp ht
    exact (hatlas a ha).inRange (id, t) (by simp [hsplit])
  | stray kind number =>
    rw [href] at ht
    cases ht

/-! ## Contributions -/

namespace Rgba

/-- What a contribution adds to the channels of a pixel is not negative and at most its alpha. -/
structure Fits (premultiplied : Bool) (c : Rgba ℝ) : Prop where
  r : c.r * (if premultiplied then 1 else c.a) ∈ Set.Icc 0 c.a
  g : c.g * (if premultiplied then 1 else c.a) ∈ Set.Icc 0 c.a
  b : c.b * (if premultiplied then 1 else c.a) ∈ Set.Icc 0 c.a
  a : c.a ≤ 1

/-- What a pixel of a frame should hold: a premultiplied colour. -/
structure Valid (c : Rgba ℝ) : Prop where
  r : c.r ∈ Set.Icc 0 c.a
  g : c.g ∈ Set.Icc 0 c.a
  b : c.b ∈ Set.Icc 0 c.a
  a : c.a ≤ 1

theorem Fits.transparent (premultiplied : Bool) : (transparent : Rgba ℝ).Fits premultiplied := by
  have hzero (scale : ℝ) : 0 * scale ∈ Set.Icc (0 : ℝ) 0 := by
    rw [zero_mul]
    exact ⟨le_refl 0, le_refl 0⟩
  exact ⟨hzero _, hzero _, hzero _, zero_le_one⟩

theorem InRange.fade {c : Rgba ℝ} (hc : c.InRange) {coverage : ℝ}
    (hcoverage : coverage ∈ Set.Icc (0 : ℝ) 1) (premultiplied : Bool) :
    (c.fade coverage premultiplied).Fits premultiplied := by
  obtain ⟨halpha, halpha'⟩ := unitInterval.mul_mem hc.a hcoverage
  have hchannel {x : ℝ} (hx : x ∈ Set.Icc (0 : ℝ) 1) :
      x * (if premultiplied then c.a * coverage else 1)
          * (if premultiplied then 1 else c.a * coverage) ∈ Set.Icc 0 (c.a * coverage) := by
    have hadded : x * (if premultiplied then c.a * coverage else 1)
        * (if premultiplied then 1 else c.a * coverage) = x * (c.a * coverage) := by
      cases premultiplied <;> simp
    rw [hadded]
    exact ⟨mul_nonneg hx.1 halpha, mul_le_of_le_one_left halpha hx.2⟩
  exact ⟨hchannel hc.r, hchannel hc.g, hchannel hc.b, halpha'⟩

theorem InRange.premultiply {c : Rgba ℝ} (hc : c.InRange) : c.premultiply.Valid := by
  have hchannel {x : ℝ} (hx : x ∈ Set.Icc (0 : ℝ) 1) : x * c.a ∈ Set.Icc 0 c.a :=
    ⟨mul_nonneg hx.1 hc.a.1, mul_le_of_le_one_left hc.a.1 hx.2⟩
  exact ⟨hchannel hc.r, hchannel hc.g, hchannel hc.b, hc.a.2⟩

/-- Laying a contribution onto a valid pixel leaves it valid, in both alpha modes. -/
theorem onto_valid {c below : Rgba ℝ} {premultiplied : Bool} (hc : c.Fits premultiplied)
    (hbelow : below.Valid) : (c.onto premultiplied below).Valid := by
  have hrest : 0 ≤ 1 - c.a := sub_nonneg.mpr hc.a
  have hchannel {x y : ℝ} (hx : x * (if premultiplied then 1 else c.a) ∈ Set.Icc 0 c.a)
      (hy : y ∈ Set.Icc 0 below.a) :
      x * (if premultiplied then 1 else c.a) + y * (1 - c.a)
        ∈ Set.Icc 0 (c.a + below.a * (1 - c.a)) :=
    ⟨add_nonneg hx.1 (mul_nonneg hy.1 hrest),
      add_le_add hx.2 (mul_le_mul_of_nonneg_right hy.2 hrest)⟩
  have halpha : c.a + below.a * (1 - c.a) ≤ 1 := by
    linarith [mul_le_of_le_one_left hrest hbelow.a]
  unfold onto
  by_cases hempty : c.a ≤ 0
  · rw [if_pos hempty]
    exact hbelow
  · rw [if_neg hempty]
    exact ⟨hchannel hc.r hbelow.r, hchannel hc.g hbelow.g, hchannel hc.b hbelow.b, halpha⟩

end Rgba

/-! ## Items -/

section
variable (p : Point ℝ) (ctx : FrameContext ℝ)

theorem QuadCorner.mixBorder_inRange (c : QuadCorner ℝ) {fill border : Rgba ℝ}
    (hfill : fill.InRange) (hborder : border.InRange) : (c.mixBorder fill border).InRange := by
  unfold mixBorder
  split_ifs
  · exact hfill.lerp (hfill.coveredBy hborder) (saturate_mem _)
  · exact hfill

theorem Quad.shade_fits {q : Quad ℝ} (hfill : q.fill.InRange) (hborder : q.borderColor.InRange) :
    (q.shade p ctx).Fits ctx.premultipliedAlpha := by
  have hcolor := hfill.colorAt p q.bounds
  unfold shade evaluate project
  dsimp only
  split_ifs
  · exact .transparent _
  · exact hcolor.fade unitInterval.one_mem _
  · exact .transparent _
  · exact hcolor.fade unitInterval.one_mem _
  · exact ((q.corner p).mixBorder_inRange hcolor hborder.toLinear).fade (saturate_mem _) _

theorem Triangle.shade_fits {t : Triangle ℝ} (hfill : t.a.fill.InRange) :
    (t.shade p ctx).Fits ctx.premultipliedAlpha := by
  have hcoverage (v : TriangleVarying ℝ) : v.curveCoverage p ∈ Set.Icc (0 : ℝ) 1 := by
    unfold TriangleVarying.curveCoverage
    dsimp only
    split_ifs
    · exact unitInterval.one_mem
    · exact saturate_mem _
  have hcolor : (t.varying.fill.colorAt p t.a.bounds).InRange := by
    have hprepared : t.varying.fill = t.a.fill.prepare := by
      unfold varying
      dsimp only
      split <;> rfl
    rw [hprepared]
    exact hfill.colorAt p t.a.bounds
  unfold shade evaluate project
  dsimp only
  split
  · exact .transparent _
  · split_ifs
    · exact .transparent _
    · exact .transparent _
    · exact hcolor.fade (hcoverage _) _

theorem Underline.shade_fits {u : Underline ℝ} (hcolor : u.color.InRange) :
    (u.shade p ctx).Fits ctx.premultipliedAlpha := by
  unfold shade evaluate project
  dsimp only
  split_ifs
  · exact .transparent _
  · exact .transparent _
  · exact hcolor.toLinear.fade (saturate_mem _) _
  · exact hcolor.toLinear.fade unitInterval.one_mem _

variable (hatlas : ∀ a, ctx.atlas = some a → a.Built)
include hatlas

theorem MonochromeSprite.shade_fits {s : MonochromeSprite ℝ} (hcolor : s.color.InRange) :
    (s.shade p ctx).Fits ctx.premultipliedAlpha := by
  unfold shade evaluate project
  dsimp only
  split
  next bound inverse hbound _ =>
    split_ifs
    · exact .transparent _
    · exact hcolor.toLinear.fade (Tile.sample_inRange hatlas hbound _).r _
  next => exact .transparent _

theorem PolychromeSprite.shade_fits {s : PolychromeSprite ℝ}
    (hopacity : s.opacity ∈ Set.Icc (0 : ℝ) 1) :
    (s.shade p ctx).Fits ctx.premultipliedAlpha := by
  have hcoverage : s.coverage p ctx ∈ Set.Icc (0 : ℝ) 1 := by
    unfold coverage
    split_ifs
    · exact unitInterval.mul_mem hopacity (saturate_mem _)
    · exact hopacity
  unfold shade evaluate project
  dsimp only
  split
  next => exact .transparent _
  next bound hbound =>
    have hsample := Tile.sample_inRange hatlas hbound (s.bounds.toUnit p)
    split_ifs
    · exact .transparent _
    · exact hsample.toGray.fade hcoverage _
    · exact hsample.fade hcoverage _

end

/-- An item without a blur, with its colours in range. -/
def Item.InRange : Item ℝ → Prop
  | .quad q => q.fill.InRange ∧ q.borderColor.InRange
  | .shadow _ => False
  | .monochromeSprite s => s.color.InRange
  | .polychromeSprite s => s.opacity ∈ Set.Icc (0 : ℝ) 1
  | .triangle t => t.a.fill.InRange
  | .underline u => u.color.InRange

/-- Such an item gives contributions that fit, at any point and in both alpha modes. -/
theorem Item.colorAt_fits {item : Item ℝ} (hitem : item.InRange) {ctx : FrameContext ℝ}
    (hatlas : ∀ a, ctx.atlas = some a → a.Built) (p : Point ℝ) :
    ((item.paint ctx).colorAt p).Fits ctx.premultipliedAlpha := by
  cases item with
  | quad q => exact Quad.shade_fits p ctx hitem.1 hitem.2
  | shadow s => exact hitem.elim
  | monochromeSprite s => exact MonochromeSprite.shade_fits p ctx hatlas hitem
  | polychromeSprite s => exact PolychromeSprite.shade_fits p ctx hatlas hitem
  | triangle t => exact Triangle.shade_fits p ctx hitem
  | underline u => exact Underline.shade_fits p ctx hitem

/-! ## Batches -/

/-- A batch without shadows, with the colours of its primitives in range. -/
def Batch.InRange : Batch ℝ → Prop
  | .quads qs => ∀ q ∈ qs, q.fill.InRange ∧ q.borderColor.InRange
  | .shadows ss => ss = []
  | .monochromeSprites _ ss => ∀ s ∈ ss, s.color.InRange
  | .polychromeSprites _ ss => ∀ s ∈ ss, s.opacity ∈ Set.Icc (0 : ℝ) 1
  | .paths ps => ∀ p ∈ ps, p.fill.InRange
  | .underlines us => ∀ u ∈ us, u.color.InRange

/-- Each vertex of a triangle is one of the records that it was grouped from. -/
theorem Triangle.mem_of_mem_ofRecords {α : Type} {records : List (VertexRecord α)}
    {t : Triangle α} (ht : t ∈ ofRecords records) : t.a ∈ records := by
  induction records using ofRecords.induct with
  | case1 a b c rest ih =>
    rw [ofRecords] at ht
    rcases List.mem_cons.mp ht with rfl | hrest
    · exact List.mem_cons_self ..
    · exact List.mem_cons_of_mem _ (List.mem_cons_of_mem _ (List.mem_cons_of_mem _ (ih hrest)))
  | case2 records hshort =>
    rw [ofRecords] at ht
    · cases ht
    · exact hshort

theorem Path.exists_of_mem_flatten {α : Type} {paths : List (Path α)} {limit : Option Nat}
    {record : VertexRecord α} (h : record ∈ flatten paths limit) :
    ∃ path ∈ paths, record.fill = path.fill := by
  have hall : record ∈ paths.flatMap records := by
    unfold flatten at h
    dsimp only at h
    split at h
    · exact List.mem_of_mem_take h
    · exact h
  obtain ⟨path, hpath, hrecord⟩ := List.mem_flatMap.mp hall
  obtain ⟨v, -, rfl⟩ := List.mem_map.mp hrecord
  exact ⟨path, hpath, rfl⟩

/-- What drawing such batches comes to is items of that kind. -/
theorem Batch.InRange.of_mem_items {options : Options ℝ} {atlas : Option (Atlas ℝ)}
    {batches : List (Batch ℝ)} (hbatches : ∀ batch ∈ batches, batch.InRange) {item : Item ℝ}
    (hitem : item ∈ Batch.items options atlas batches) : item.InRange := by
  obtain ⟨plan, hplan, hitem⟩ := List.mem_flatMap.mp hitem
  obtain ⟨batch, hbatch, rfl⟩ := List.mem_map.mp hplan
  have hrange := hbatches batch hbatch
  cases batch with
  | quads qs =>
    obtain ⟨q, hq, rfl⟩ := Plan.exists_of_mem_ofPass hitem
    exact hrange q hq
  | shadows ss =>
    obtain ⟨s, hs, rfl⟩ := Plan.exists_of_mem_ofPass hitem
    rw [show ss = [] from hrange] at hs
    cases hs
  | monochromeSprites texture ss =>
    obtain ⟨s, hs, rfl⟩ := Plan.exists_of_mem_ofSprites hitem
    exact hrange s hs
  | polychromeSprites texture ss =>
    obtain ⟨s, hs, rfl⟩ := Plan.exists_of_mem_ofSprites hitem
    exact hrange s hs
  | paths ps =>
    obtain ⟨t, ht, rfl⟩ := List.mem_map.mp hitem
    obtain ⟨path, hpath, hfill⟩ := Path.exists_of_mem_flatten (Triangle.mem_of_mem_ofRecords ht)
    have hfirst : t.a.fill.InRange := by
      rw [hfill]
      exact hrange path hpath
    exact hfirst
  | underlines us =>
    rcases List.mem_append.mp hitem with hstraight | hwavy
    · obtain ⟨u, hu, rfl⟩ := Plan.exists_of_mem_ofPass hstraight
      exact hrange u (List.mem_of_mem_filter hu)
    · obtain ⟨u, hu, rfl⟩ := Plan.exists_of_mem_ofPass hwavy
      exact hrange u (List.mem_of_mem_filter hu)

end Raster
