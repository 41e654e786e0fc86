import Raster.Scalar.Real
import Raster.Proofs.EmptyShapes

/-!
# The hull of a transformed sprite

A monochrome sprite is rasterized in the hull of its transformed corners, and
a pixel is seen where its centre is mapped back into the sprite. Both the
sprite and the span of the hull go without their right and bottom sides, each
in its own space, so a transformation that changes the direction of a side
brings the two into conflict.

What is seen of a sprite is in its hull with all four sides
(`MonochromeSprite.closed_of_seen`), so a pixel that is seen is lost only if its
centre is on the right or the bottom side of the hull. A transformation
keeps all pixels of all sprites if and only if it sends one of the two
directions of the sprite to the right and one of the two down
(`transformed_sprites_lose_far_sides`): moving, scaling and small turns do, mirrors
and half turns do not (`mirrored_sprite_lost`).
-/

namespace Raster

/-! ## A linear function on a rectangle -/

/-- One of the two ends of a half-open side is at least as far in any direction as a point of it,
and further in the direction of the side. -/
theorem exists_end_ge (k : ℝ) {start extent v : ℝ} (hstart : start ≤ v)
    (hend : v < start + extent) :
    ∃ u : ℝ, (u = 0 ∨ u = 1) ∧ k * v ≤ k * (u * extent + start)
      ∧ (0 < k → k * v < k * (u * extent + start)) := by
  rcases le_or_gt k 0 with hback | hforth
  · refine ⟨0, .inl rfl, ?_, fun h => absurd h hback.not_gt⟩
    rw [zero_mul, zero_add]
    exact mul_le_mul_of_nonpos_left hstart hback
  · have hlt : k * v < k * (1 * extent + start) := by
      rw [one_mul, add_comm extent]
      exact mul_lt_mul_of_pos_left hend hforth
    exact ⟨1, .inr rfl, hlt.le, fun _ => hlt⟩

namespace Bounds

/-- A number that a linear function does not exceed at the corners of a rectangle is not exceeded
at its points, and not reached if the function grows to the right or down. -/
theorem linear_le_of_corners {b : Bounds ℝ} {q : Point ℝ} (hq : b.contains q = true)
    {kx ky c far : ℝ}
    (hcorners : ∀ u v : ℝ, (u = 0 ∨ u = 1) → (v = 0 ∨ v = 1) →
      kx * (b.place ⟨u, v⟩).x + ky * (b.place ⟨u, v⟩).y + c ≤ far) :
    kx * q.x + ky * q.y + c ≤ far
      ∧ ((0 < kx ∨ 0 < ky) → kx * q.x + ky * q.y + c < far) := by
  obtain ⟨⟨hleft, hright⟩, htop, hbottom⟩ := contains_iff.mp hq
  obtain ⟨u, hu, hux, hux'⟩ := exists_end_ge kx hleft hright
  obtain ⟨v, hv, hvy, hvy'⟩ := exists_end_ge ky htop hbottom
  have hcorner : kx * (u * b.size.width + b.origin.x) + ky * (v * b.size.height + b.origin.y) + c
      ≤ far := hcorners u v hu hv
  refine ⟨by linarith, ?_⟩
  rintro (hkx | hky)
  · linarith [hux' hkx]
  · linarith [hvy' hky]

/-- And one that it does not fall below at the corners, it does not fall below at any point. -/
theorem le_linear_of_corners {b : Bounds ℝ} {q : Point ℝ} (hq : b.contains q = true)
    {kx ky c near : ℝ}
    (hcorners : ∀ u v : ℝ, (u = 0 ∨ u = 1) → (v = 0 ∨ v = 1) →
      near ≤ kx * (b.place ⟨u, v⟩).x + ky * (b.place ⟨u, v⟩).y + c) :
    near ≤ kx * q.x + ky * q.y + c := by
  have hback : -kx * q.x + -ky * q.y + -c ≤ -near :=
    (linear_le_of_corners hq fun u v hu hv => by linarith [hcorners u v hu hv]).1
  linarith

end Bounds

theorem unitCorners_eq : (unitCorners : List (Point ℝ)) = [⟨0, 0⟩, ⟨1, 0⟩, ⟨0, 1⟩, ⟨1, 1⟩] := by
  norm_num [unitCorners, unitCorner, Scalar.ofInt_eq_intCast]

namespace MonochromeSprite

variable {s : MonochromeSprite ℝ} {ctx : FrameContext ℝ} {p : Point ℝ}

theorem mem_corners {q : Point ℝ} :
    q ∈ s.corners ↔ ∃ u v : ℝ, (u = 0 ∨ u = 1) ∧ (v = 0 ∨ v = 1)
      ∧ s.transformation.apply (s.bounds.place ⟨u, v⟩) = q := by
  rw [corners, unitCorners_eq, List.mem_map]
  constructor
  · rintro ⟨unit, hunit, rfl⟩
    simp only [List.mem_cons, List.not_mem_nil, or_false] at hunit
    rcases hunit with rfl | rfl | rfl | rfl
    · exact ⟨0, 0, .inl rfl, .inl rfl, rfl⟩
    · exact ⟨1, 0, .inr rfl, .inl rfl, rfl⟩
    · exact ⟨0, 1, .inl rfl, .inr rfl, rfl⟩
    · exact ⟨1, 1, .inr rfl, .inr rfl, rfl⟩
  · rintro ⟨u, v, rfl | rfl, rfl | rfl, rfl⟩ <;> exact ⟨_, by simp, rfl⟩

/-! ## What is seen of a sprite -/

/-- A sprite is seen where a point is mapped back into it. -/
theorem exists_inverse_of_seen (hseen : 0 < (s.shade p ctx).a) :
    ∃ inverse, s.transformation.inverse? = some inverse
      ∧ (s.bounds.toUnit (inverse.apply p)).inUnitSquare = true := by
  cases hinverse : s.transformation.inverse? with
  | none =>
    rw [shade_of_singular hinverse] at hseen
    exact absurd hseen (lt_irrefl 0)
  | some inverse =>
    refine ⟨inverse, rfl, ?_⟩
    by_contra hout
    rw [shade_of_inverse hinverse, colorAtOwn_of_outside (Bool.eq_false_iff.mpr hout)] at hseen
    exact lt_irrefl 0 hseen

section
variable (hwidth : minExtent ≤ s.bounds.size.width) (hheight : minExtent ≤ s.bounds.size.height)
  (hseen : 0 < (s.shade p ctx).a)
include hwidth hheight hseen

theorem exists_apply_of_seen :
    ∃ q, s.bounds.contains q = true ∧ s.transformation.apply q = p := by
  obtain ⟨inverse, hinverse, hin⟩ := exists_inverse_of_seen hseen
  rw [Bounds.inUnitSquare_toUnit hwidth hheight] at hin
  exact ⟨_, hin, Transformation.apply_inverse_apply hinverse p⟩

/-- What is seen is in the raster bounds with all their sides. It is on the right side only if the
transformation sends neither direction of the sprite to the right, and on the bottom side only if
it sends neither down. -/
theorem closed_of_seen :
    (s.project ctx).rasterBounds.Closed p
      ∧ ((0 < s.transformation.a ∨ 0 < s.transformation.b) →
        p.x < (s.project ctx).rasterBounds.origin.x + (s.project ctx).rasterBounds.size.width)
      ∧ ((0 < s.transformation.c ∨ 0 < s.transformation.d) →
        p.y < (s.project ctx).rasterBounds.origin.y
          + (s.project ctx).rasterBounds.size.height) := by
  obtain ⟨q, hq, rfl⟩ := exists_apply_of_seen hwidth hheight hseen
  have hbounds : (s.project ctx).rasterBounds
      = if s.transformation.isIdentity then s.bounds else Bounds.hull s.corners := rfl
  rw [hbounds]
  split
  next hidentity =>
    rw [Transformation.eq_identity hidentity, Transformation.apply_identity]
    obtain ⟨⟨hleft, hright⟩, htop, hbottom⟩ := Bounds.contains_iff.mp hq
    exact ⟨⟨⟨hleft, hright.le⟩, htop, hbottom.le⟩, fun _ => hright, fun _ => hbottom⟩
  next =>
    have hcorner (u v : ℝ) (hu : u = 0 ∨ u = 1) (hv : v = 0 ∨ v = 1) :
        (Bounds.hull s.corners).Closed (s.transformation.apply (s.bounds.place ⟨u, v⟩)) :=
      Bounds.closed_hull (mem_corners.mpr ⟨u, v, hu, hv, rfl⟩)
    have hright := Bounds.linear_le_of_corners hq fun u v hu hv => (hcorner u v hu hv).1.2
    have hbottom := Bounds.linear_le_of_corners hq fun u v hu hv => (hcorner u v hu hv).2.2
    have hleft := Bounds.le_linear_of_corners hq fun u v hu hv => (hcorner u v hu hv).1.1
    have htop := Bounds.le_linear_of_corners hq fun u v hu hv => (hcorner u v hu hv).2.1
    exact ⟨⟨⟨hleft, hright.1⟩, htop, hbottom.1⟩, hright.2, hbottom.2⟩

/-- A pixel that is seen is in the span of the raster bounds, unless its centre is on their right or
bottom side. -/
theorem has_or_far_of_seen {width height column row : ℕ} (hx : column < width) (hy : row < height)
    (hcenter : pixelCenter (column, row) = p) :
    ((s.project ctx).rasterBounds.span (Scalar.ofNat width) (Scalar.ofNat height)).has
        (column, row) = true
      ∨ p.x = (s.project ctx).rasterBounds.origin.x + (s.project ctx).rasterBounds.size.width
      ∨ p.y = (s.project ctx).rasterBounds.origin.y
        + (s.project ctx).rasterBounds.size.height := by
  obtain ⟨⟨⟨hleft, hright⟩, htop, hbottom⟩, -⟩ := closed_of_seen hwidth hheight hseen
  rcases hright.eq_or_lt with hside | hright
  · exact .inr (.inl hside)
  rcases hbottom.eq_or_lt with hside | hbottom
  · exact .inr (.inr hside)
  · refine .inl ?_
    rw [Bounds.span_has_iff_contains hx hy, hcenter, Bounds.contains_iff]
    exact ⟨⟨hleft, hright⟩, htop, hbottom⟩

end

/-! ## A sprite that is lost -/

/-- Where neither direction of a dot is sent to the right, no corner is to the right of the first
one, and likewise for down. -/
theorem corner_dot_le {t : Transformation ℝ} {origin q : Point ℝ}
    (hq : q ∈ (dot t origin).corners) :
    (t.a ≤ 0 ∧ t.b ≤ 0 → q.x ≤ (t.apply origin).x)
      ∧ (t.c ≤ 0 ∧ t.d ≤ 0 → q.y ≤ (t.apply origin).y) := by
  obtain ⟨u, v, hu, hv, rfl⟩ := mem_corners.mp hq
  have hnonneg {x : ℝ} (hx : x = 0 ∨ x = 1) : 0 ≤ x := by
    rcases hx with rfl | rfl
    · exact le_rfl
    · exact zero_le_one
  have hstep {k m : ℝ} (h : k ≤ 0 ∧ m ≤ 0) (c : ℝ) :
      k * (u * 1 + origin.x) + m * (v * 1 + origin.y) + c ≤ k * origin.x + m * origin.y + c := by
    have hright := mul_nonpos_of_nonpos_of_nonneg h.1 (hnonneg hu)
    have hdown := mul_nonpos_of_nonpos_of_nonneg h.2 (hnonneg hv)
    linarith
  exact ⟨fun h => hstep h t.tx, fun h => hstep h t.ty⟩

/-- Where a transformation sends neither direction of a sprite to the right, or neither down, the
first corner of a dot can be put at the centre of a pixel, and the pixel is lost. -/
theorem exists_dot_lost {t : Transformation ℝ} (hdet : Transformation.minDet ≤ |t.det|)
    (h : (t.a ≤ 0 ∧ t.b ≤ 0) ∨ (t.c ≤ 0 ∧ t.d ≤ 0)) :
    ∃ origin, ((dot t origin).shade (pixelCenter (0, 0)) dotContext).a = 1
      ∧ (((dot t origin).project dotContext).rasterBounds.span (Scalar.ofNat 1)
          (Scalar.ofNat 1)).has (0, 0) = false := by
  obtain ⟨inverse, hinverse⟩ := Transformation.exists_inverse? hdet
  have hback := Transformation.apply_inverse_apply hinverse (pixelCenter (0, 0))
  refine ⟨inverse.apply (pixelCenter (0, 0)), alpha_shade_dot hinverse ?_, ?_⟩
  · rw [Bounds.contains_iff]
    exact ⟨⟨le_rfl, lt_add_one _⟩, le_rfl, lt_add_one _⟩
  have hidentity : t.isIdentity = false := by
    rw [Bool.eq_false_iff]
    intro hidentity
    rw [Transformation.eq_identity hidentity] at h
    rcases h with ⟨ha, -⟩ | ⟨-, hd⟩
    · exact ha.not_gt one_pos
    · exact hd.not_gt one_pos
  have hbounds (origin : Point ℝ) : ((dot t origin).project dotContext).rasterBounds
      = Bounds.hull (dot t origin).corners := by
    show (if t.isIdentity then _ else _) = _
    rw [hidentity]
    rfl
  rw [hbounds, Bool.eq_false_iff, ne_eq, Bounds.span_has_iff_contains Nat.one_pos Nat.one_pos,
    Bounds.contains_iff]
  rintro ⟨⟨-, hright⟩, -, hbottom⟩
  rcases h with h | h
  · refine hright.not_ge (Bounds.hull_right_le corners_ne_nil fun q hq => ?_)
    exact hback ▸ (corner_dot_le hq).1 h
  · refine hbottom.not_ge (Bounds.hull_bottom_le corners_ne_nil fun q hq => ?_)
    exact hback ▸ (corner_dot_le hq).2 h

end MonochromeSprite

/-! ## Transformations that keep all pixels -/

/-- Whether each pixel of a frame at whose centre a transformed sprite is seen is in the span of
the raster bounds of the sprite. -/
def Transformation.KeepsPixels (t : Transformation ℝ) : Prop :=
  ∀ (s : MonochromeSprite ℝ) (ctx : FrameContext ℝ) (width height column row : ℕ),
    s.transformation = t → minExtent ≤ s.bounds.size.width → minExtent ≤ s.bounds.size.height →
    column < width → row < height → 0 < (s.shade (pixelCenter (column, row)) ctx).a →
    ((s.project ctx).rasterBounds.span (Scalar.ofNat width) (Scalar.ofNat height)).has
      (column, row) = true

theorem Transformation.keepsPixels_of_forward {t : Transformation ℝ}
    (hright : 0 < t.a ∨ 0 < t.b) (hdown : 0 < t.c ∨ 0 < t.d) : t.KeepsPixels := by
  rintro s ctx width height column row rfl hwidth hheight hx hy hseen
  obtain ⟨⟨⟨hleft, -⟩, htop, -⟩, hright', hbottom'⟩ :=
    MonochromeSprite.closed_of_seen hwidth hheight hseen
  rw [Bounds.span_has_iff_contains hx hy, Bounds.contains_iff]
  exact ⟨⟨hleft, hright' hright⟩, htop, hbottom' hdown⟩

theorem Transformation.forward_of_keepsPixels {t : Transformation ℝ} (hdet : minDet ≤ |t.det|)
    (hkeeps : t.KeepsPixels) : (0 < t.a ∨ 0 < t.b) ∧ (0 < t.c ∨ 0 < t.d) := by
  by_contra hback
  have hsides : (t.a ≤ 0 ∧ t.b ≤ 0) ∨ (t.c ≤ 0 ∧ t.d ≤ 0) := by
    rcases not_and_or.mp hback with h | h
    · exact .inl ⟨not_lt.mp fun ha => h (.inl ha), not_lt.mp fun hb => h (.inr hb)⟩
    · exact .inr ⟨not_lt.mp fun hc => h (.inl hc), not_lt.mp fun hd => h (.inr hd)⟩
  obtain ⟨origin, hseen, hlost⟩ := MonochromeSprite.exists_dot_lost hdet hsides
  have hkept := hkeeps (.dot t origin) MonochromeSprite.dotContext 1 1 0 0 rfl
    MonochromeSprite.minExtent_le_one MonochromeSprite.minExtent_le_one
    Nat.one_pos Nat.one_pos (by rw [hseen]; exact one_pos)
  rw [hlost] at hkept
  cases hkept

/-- A pixel at whose centre a transformed sprite is seen is in the span of the raster bounds, unless
the centre is on their right or bottom side. With a transformation that is not singular no pixel
of any sprite is lost that way if and only if one direction of the sprite is sent to the right and
one down. -/
theorem transformed_sprites_lose_far_sides {t : Transformation ℝ}
    (hdet : Transformation.minDet ≤ |t.det|) :
    (∀ (s : MonochromeSprite ℝ) (ctx : FrameContext ℝ) (width height column row : ℕ),
      s.transformation = t → minExtent ≤ s.bounds.size.width →
      minExtent ≤ s.bounds.size.height → column < width → row < height →
      0 < (s.shade (pixelCenter (column, row)) ctx).a →
      let b : Bounds ℝ := (s.project ctx).rasterBounds
      (b.span (Scalar.ofNat width) (Scalar.ofNat height)).has (column, row) = true
        ∨ (pixelCenter (column, row)).x = b.origin.x + b.size.width
        ∨ (pixelCenter (column, row)).y = b.origin.y + b.size.height)
    ∧ (t.KeepsPixels ↔ (0 < t.a ∨ 0 < t.b) ∧ (0 < t.c ∨ 0 < t.d)) := by
  constructor
  · rintro s ctx width height column row - hwidth hheight hx hy hseen
    exact MonochromeSprite.has_or_far_of_seen hwidth hheight hseen hx hy rfl
  · exact ⟨Transformation.forward_of_keepsPixels hdet,
      fun h => Transformation.keepsPixels_of_forward h.1 h.2⟩

/-- A turn by the smaller angle of the triangle with sides 3, 4 and 5 keeps all pixels, a mirror
does not. -/
theorem transformed_sprites_lose_far_sides_turn_and_mirror :
    let turn : Transformation ℝ := ⟨4 / 5, -(3 / 5), 3 / 5, 4 / 5, 0, 0⟩
    let mirror : Transformation ℝ := ⟨-1, 0, 0, 1, 0, 0⟩
    (Transformation.minDet ≤ |turn.det| ∧ turn.KeepsPixels)
      ∧ Transformation.minDet ≤ |mirror.det| ∧ ¬ mirror.KeepsPixels := by
  intro turn mirror
  have hturn : (Transformation.minDet : ℝ) ≤ |turn.det| := by
    show (1e-12 : ℝ) ≤ |4 / 5 * (4 / 5) - -(3 / 5) * (3 / 5)|
    norm_num
  have hmirror : (Transformation.minDet : ℝ) ≤ |mirror.det| := by
    show (1e-12 : ℝ) ≤ |-1 * 1 - 0 * 0|
    norm_num
  refine ⟨⟨hturn, ?_⟩, hmirror, ?_⟩
  · refine (transformed_sprites_lose_far_sides hturn).2.mpr ⟨.inl ?_, .inl ?_⟩ <;>
      norm_num [turn]
  · intro hkeeps
    obtain ⟨hright, -⟩ := (transformed_sprites_lose_far_sides hmirror).2.mp hkeeps
    norm_num [mirror] at hright

/-- A mirrored dot between two pixel centres: seen at the second one, which the span of its hull
does not have, and not seen at the first one, which it has. So nothing of it is drawn. -/
theorem mirrored_sprite_lost :
    let s : MonochromeSprite ℝ := .dot ⟨-1, 0, 0, 1, 3 / 2, 0⟩ ⟨0, 0⟩
    let ctx : FrameContext ℝ := MonochromeSprite.dotContext
    let span : Span ℝ := (s.project ctx).rasterBounds.span (Scalar.ofNat 2) (Scalar.ofNat 1)
    |s.transformation.det| = 1 ∧ s.bounds = .of 0 0 1 1
      ∧ (s.shade (pixelCenter (1, 0)) ctx).a = 1 ∧ span.has (1, 0) = false
      ∧ (s.shade (pixelCenter (0, 0)) ctx).a ≤ 0 ∧ span.has (0, 0) = true := by
  intro s ctx span
  have hinverse : s.transformation.inverse? = some ⟨-1, 0, 0, 1, 3 / 2, 0⟩ := by
    have hregular : ¬ Scalar.abs (-1 : ℝ) < Transformation.minDet := by
      show ¬ |(-1 : ℝ)| < 1e-12
      norm_num
    simp [s, MonochromeSprite.dot, Transformation.inverse?, Transformation.det, hregular]
  have hhull : (s.project ctx).rasterBounds = .of (1 / 2) 0 1 1 := by
    have hidentity : s.transformation.isIdentity = false := by
      rw [Bool.eq_false_iff]
      intro h
      have ha := congrArg Transformation.a (Transformation.eq_identity h)
      norm_num [s, MonochromeSprite.dot, Transformation.identity] at ha
    show (if s.transformation.isIdentity then _ else _) = _
    rw [hidentity, if_neg Bool.false_ne_true, MonochromeSprite.corners, unitCorners_eq]
    norm_num [s, MonochromeSprite.dot, Bounds.hull, Bounds.place, Transformation.apply, Bounds.of]
  have hcenter (column : ℕ) : pixelCenter (column, 0) = (⟨column + 1 / 2, 1 / 2⟩ : Point ℝ) := by
    norm_num [pixelCenter_eq]
  refine ⟨?_, rfl, ?_, ?_, ?_, ?_⟩
  · show |(-1 : ℝ) * 1 - 0 * 0| = 1
    norm_num
  · refine MonochromeSprite.alpha_shade_dot hinverse ?_
    rw [hcenter, Bounds.contains_iff]
    norm_num [Transformation.apply]
  · rw [Bool.eq_false_iff, ne_eq, Bounds.span_has_iff_contains (by decide) (by decide), hhull,
      hcenter, Bounds.contains_iff]
    norm_num [Bounds.of]
  · refine not_lt.mp fun hseen => ?_
    obtain ⟨inverse, hsome, hin⟩ := MonochromeSprite.exists_inverse_of_seen hseen
    obtain rfl := Option.some.inj (hinverse.symm.trans hsome)
    rw [Bounds.inUnitSquare_toUnit MonochromeSprite.minExtent_le_one
      MonochromeSprite.minExtent_le_one, hcenter, Bounds.contains_iff] at hin
    norm_num [s, MonochromeSprite.dot, Transformation.apply] at hin
  · rw [Bounds.span_has_iff_contains (by decide) (by decide), hhull, hcenter, Bounds.contains_iff]
    norm_num [Bounds.of]

end Raster
