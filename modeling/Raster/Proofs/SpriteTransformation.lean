import Raster.Scalar.Real
import Raster.Proofs.Clipping
import Raster.Proofs.Hsl
import Raster.Proofs.RasterBounds
import Raster.Proofs.Texture

/-!
# Sprites move with their transformation

A transformation that is not singular has an inverse from both sides, and
what a monochrome sprite shows at a point is what the same sprite shows,
before it is transformed, at the point that is sent there
(`MonochromeSprite.shade_equivariant`). Under a singular transformation
nothing is shown at all.

Texel, containment and clip are all found from the point in the sprite's own
space (`MonochromeSprite.colorAtOwn`), which knows nothing of the
transformation; so the inverse is the only place where the two drawings
differ, and there they meet.
-/

namespace Raster

/-! ## Inverses -/

theorem Transformation.exists_inverse? {t : Transformation ℝ} (hdet : minDet ≤ |t.det|) :
    ∃ inverse, t.inverse? = some inverse := ⟨_, if_neg (not_lt.mpr hdet)⟩

theorem Transformation.inverse?_eq_none {t : Transformation ℝ} (h : |t.det| < minDet) :
    t.inverse? = none := if_pos h

theorem Transformation.of_inverse?_eq_some {t inverse : Transformation ℝ}
    (h : t.inverse? = some inverse) :
    t.det ≠ 0 ∧ inverse = ⟨t.d / t.det, -t.b / t.det, -t.c / t.det, t.a / t.det,
      -(t.d / t.det * t.tx + -t.b / t.det * t.ty),
      -(-t.c / t.det * t.tx + t.a / t.det * t.ty)⟩ := by
  unfold inverse? at h
  split at h
  · cases h
  next hregular =>
    refine ⟨fun hzero => hregular ?_, (Option.some.inj h).symm⟩
    show |t.det| < 1e-12
    rw [hzero, abs_zero]
    norm_num

/-- A point that is mapped back by the inverse is mapped there again. -/
theorem Transformation.apply_inverse_apply {t inverse : Transformation ℝ}
    (h : t.inverse? = some inverse) (p : Point ℝ) : t.apply (inverse.apply p) = p := by
  obtain ⟨hdet, rfl⟩ := of_inverse?_eq_some h
  simp only [apply]
  refine congrArg₂ Point.mk ?_ ?_
  · field_simp
    rw [det]
    ring
  · field_simp
    rw [det]
    ring

/-- A point that is mapped is mapped back by the inverse. -/
theorem Transformation.inverse_apply_apply {t inverse : Transformation ℝ}
    (h : t.inverse? = some inverse) (p : Point ℝ) : inverse.apply (t.apply p) = p := by
  obtain ⟨hdet, rfl⟩ := of_inverse?_eq_some h
  simp only [apply]
  refine congrArg₂ Point.mk ?_ ?_
  · field_simp
    rw [det]
    ring
  · field_simp
    rw [det]
    ring

/-! ## The sprite's own space -/

namespace MonochromeSprite

section
variable {α : Type}

/-- The sprite under another transformation. -/
def under (s : MonochromeSprite α) (t : Transformation α) : MonochromeSprite α :=
  { s with transformation := t }

variable [Scalar α]

/-- The colour at a point of the sprite's own space. -/
def colorAtOwn (s : MonochromeSprite α) (own : Point α) (ctx : FrameContext α) : Rgba α :=
  match s.tile.bind ctx.atlas with
  | none => Rgba.transparent
  | some texture =>
    let unit := s.bounds.toUnit own
    if !unit.inUnitSquare || s.contentMask.clips own then Rgba.transparent
    else s.color.toLinear.fade (s.tile.sample texture unit).r ctx.premultipliedAlpha

theorem colorAtOwn_of_outside {s : MonochromeSprite α} {own : Point α}
    (h : (s.bounds.toUnit own).inUnitSquare = false) (ctx : FrameContext α) :
    s.colorAtOwn own ctx = Rgba.transparent := by
  rw [colorAtOwn]
  cases s.tile.bind ctx.atlas with
  | none => rfl
  | some texture =>
    dsimp only
    rw [h, Bool.not_false, Bool.true_or, if_pos rfl]

theorem colorAtOwn_of_inside {s : MonochromeSprite α} {own : Point α} {ctx : FrameContext α}
    {texture : BoundTexture α} (htexture : s.tile.bind ctx.atlas = some texture)
    (hin : (s.bounds.toUnit own).inUnitSquare = true) (hmask : s.contentMask.clips own = false) :
    s.colorAtOwn own ctx = s.color.toLinear.fade
      (s.tile.sample texture (s.bounds.toUnit own)).r ctx.premultipliedAlpha := by
  rw [colorAtOwn, htexture]
  dsimp only
  rw [hin, hmask]
  rfl

theorem colorAtOwn_under (s : MonochromeSprite α) (t : Transformation α) (own : Point α)
    (ctx : FrameContext α) : (s.under t).colorAtOwn own ctx = s.colorAtOwn own ctx := rfl

theorem shade_of_inverse {s : MonochromeSprite α} {inverse : Transformation α}
    (h : s.transformation.inverse? = some inverse) (p : Point α) (ctx : FrameContext α) :
    s.shade p ctx = s.colorAtOwn (inverse.apply p) ctx := by
  rw [shade, project, evaluate, colorAtOwn, h]
  cases s.tile.bind ctx.atlas <;> rfl

theorem shade_of_singular {s : MonochromeSprite α} (h : s.transformation.inverse? = none)
    (p : Point α) (ctx : FrameContext α) : s.shade p ctx = Rgba.transparent := by
  rw [shade, project, evaluate, h]
  cases s.tile.bind ctx.atlas <;> rfl

end

/-! ## Dots -/

theorem minExtent_le_one : minExtent ≤ (1 : ℝ) := by
  show (1e-6 : ℝ) ≤ 1
  norm_num

/-- A texture with one texel, which is full. -/
noncomputable def fullTexture : Texture ℝ :=
  ⟨.monochrome, 1, 1, #[1], Nat.one_pos, Nat.one_pos, rfl⟩

theorem sample_fullTexture (uv : Point ℝ) : (fullTexture.sample uv).r = 1 := by
  have hfull (x y : ℝ) : fullTexture.filtered x y 0 = 1 := by
    have hrange : fullTexture.filtered x y 0 ∈ Set.Icc (1 : ℝ) 1 := by
      refine Texture.filtered_mem (fun column row hcolumn hrow => ?_) x y
      obtain rfl := Nat.lt_one_iff.mp hcolumn
      obtain rfl := Nat.lt_one_iff.mp hrow
      exact ⟨le_rfl, le_rfl⟩
    exact le_antisymm hrange.2 hrange.1
  exact hfull _ _

/-- A black square of one pixel's size, before it is transformed. -/
noncomputable def dot (t : Transformation ℝ) (origin : Point ℝ) : MonochromeSprite ℝ :=
  ⟨⟨0, ⟨origin, ⟨1, 1⟩⟩, ⟨origin, ⟨1, 1⟩⟩⟩, ⟨0, 0, 0, 1⟩,
    ⟨.numbered ⟨.monochrome, 0⟩, .of 0 0 1 1⟩, t⟩

/-- A frame's values for drawing dots. -/
noncomputable def dotContext : FrameContext ℝ :=
  ⟨⟨2, 1⟩, true, 4, false, some ⟨[(⟨.monochrome, 0⟩, fullTexture)], 1, 0⟩⟩

theorem alpha_shade_dot {t inverse : Transformation ℝ} (hinverse : t.inverse? = some inverse)
    {origin p : Point ℝ} (hin : (⟨origin, ⟨1, 1⟩⟩ : Bounds ℝ).contains (inverse.apply p) = true) :
    ((dot t origin).shade p dotContext).a = 1 := by
  have hbind : (dot t origin).tile.bind dotContext.atlas
      = some ⟨.numbered ⟨.monochrome, 0⟩, fullTexture⟩ := rfl
  have hunit : ((dot t origin).bounds.toUnit (inverse.apply p)).inUnitSquare = true := by
    rw [Bounds.inUnitSquare_toUnit minExtent_le_one minExtent_le_one]
    exact hin
  have hmask : (dot t origin).contentMask.clips (inverse.apply p) = false := by
    obtain ⟨⟨hleft, hright⟩, htop, hbottom⟩ := Bounds.contains_iff.mp hin
    rw [Bool.eq_false_iff, ne_eq, Bounds.clips_iff]
    rintro ((h | h) | h | h)
    · exact h.not_ge hleft
    · exact h.not_ge hright.le
    · exact h.not_ge htop
    · exact h.not_ge hbottom.le
  rw [shade_of_inverse (s := dot t origin) hinverse, colorAtOwn_of_inside hbind hunit hmask,
    Tile.sample, sample_fullTexture]
  show (dot t origin).color.toLinear.a * 1 = 1
  rw [Hsla.alpha_toLinear]
  exact mul_one 1

/-! ## Sprites under transformations -/

theorem shade_under {t inverse : Transformation ℝ} (h : t.inverse? = some inverse)
    (s : MonochromeSprite ℝ) (p : Point ℝ) (ctx : FrameContext ℝ) :
    (s.under t).shade p ctx = (s.under .identity).shade (inverse.apply p) ctx := by
  have hidentity : (s.under .identity).transformation.inverse? = some .identity :=
    Transformation.inverse?_identity
  rw [shade_of_inverse (s := s.under t) h, shade_of_inverse hidentity,
    Transformation.apply_identity, colorAtOwn_under, colorAtOwn_under]

/-- With a transformation whose determinant is not too small, its inverse undoes it and is undone
by it, and every sprite shows at the image of a point what it shows at the point when it is not
transformed. With any smaller determinant every sprite is transparent everywhere. -/
theorem shade_equivariant (t : Transformation ℝ) :
    (Transformation.minDet ≤ |t.det| → ∃ inverse, t.inverse? = some inverse
      ∧ (∀ p, inverse.apply (t.apply p) = p) ∧ (∀ p, t.apply (inverse.apply p) = p)
      ∧ ∀ (s : MonochromeSprite ℝ) (p : Point ℝ) (ctx : FrameContext ℝ),
        (s.under t).shade (t.apply p) ctx = (s.under .identity).shade p ctx)
    ∧ (|t.det| < Transformation.minDet → t.inverse? = none
      ∧ ∀ (s : MonochromeSprite ℝ) (p : Point ℝ) (ctx : FrameContext ℝ),
        (s.under t).shade p ctx = Rgba.transparent) := by
  constructor
  · intro hdet
    obtain ⟨inverse, hinverse⟩ := Transformation.exists_inverse? hdet
    have hback := Transformation.inverse_apply_apply hinverse
    refine ⟨inverse, hinverse, hback, Transformation.apply_inverse_apply hinverse, ?_⟩
    intro s p ctx
    rw [shade_under hinverse, hback]
  · intro hdet
    have hinverse := Transformation.inverse?_eq_none hdet
    exact ⟨hinverse, fun s p ctx => shade_of_singular (s := s.under t) hinverse p ctx⟩

/-- A dot that is sheared, mirrored and moved is full at the image of its centre, and one that is
flattened onto a line is gone. -/
theorem shade_equivariant_shear_and_line :
    let shear : Transformation ℝ := ⟨2, 1, 1, -1, 3, 4⟩
    let line : Transformation ℝ := ⟨1, 2, 2, 4, 0, 0⟩
    let s : MonochromeSprite ℝ := dot .identity ⟨0, 0⟩
    (Transformation.minDet ≤ |shear.det| ∧ shear.apply ⟨1 / 2, 1 / 2⟩ = ⟨9 / 2, 4⟩
        ∧ (s.under shear).shade ⟨9 / 2, 4⟩ dotContext = s.shade ⟨1 / 2, 1 / 2⟩ dotContext
        ∧ (s.shade ⟨1 / 2, 1 / 2⟩ dotContext).a = 1)
      ∧ |line.det| < Transformation.minDet
      ∧ (s.under line).shade ⟨1 / 2, 1⟩ dotContext = Rgba.transparent := by
  intro shear line s
  have hshear : (Transformation.minDet : ℝ) ≤ |shear.det| := by
    show (1e-12 : ℝ) ≤ |2 * -1 - 1 * 1|
    norm_num
  have hline : |line.det| < (Transformation.minDet : ℝ) := by
    show |(1 : ℝ) * 4 - 2 * 2| < 1e-12
    norm_num
  have hcenter : shear.apply ⟨1 / 2, 1 / 2⟩ = ⟨9 / 2, 4⟩ := by
    norm_num [shear, Transformation.apply]
  obtain ⟨inverse, -, -, -, hsame⟩ := (shade_equivariant shear).1 hshear
  have hmoved := hsame s ⟨1 / 2, 1 / 2⟩ dotContext
  rw [hcenter] at hmoved
  refine ⟨⟨hshear, hcenter, hmoved, ?_⟩, hline, ((shade_equivariant line).2 hline).2 s _ _⟩
  refine alpha_shade_dot Transformation.inverse?_identity ?_
  rw [Transformation.apply_identity, Bounds.contains_iff]
  norm_num

end MonochromeSprite

end Raster
