import Mathlib.Data.Set.Insert
import Mathlib.Data.Set.Image
import Mathlib.Logic.Basic
import Raster.Frame.Picture
import Raster.Renderer

/-!
# What drawing divides by

The divisors of an item are those of its two stages, the second one at a
point (`Item.divisors`): constants of the formulas, extents and spans as
they are kept from being too small, and numbers that are tested before they
divide. The divisors of a frame are those of its bytes (`Frame.divisors`).
A set may hold more than one point needs: the constants stand in every set,
and the error function is listed at all arguments.

That nothing is missing is told by another division. `Scalar.withDivision`
are the same scalars but for division and remainder. Where these are right
for the divisors of an item, both of its stages give what they always give
(`paint_withDivision`), and likewise for the bytes of a frame
(`toBytes_withDivision`). The proof goes function by function, colours
first, and asks at each division for its own divisor.
-/

namespace Raster

variable {α : Type} [s : Scalar α]

/-! ## Another division -/

namespace Scalar

/-- The same scalars with another division and another remainder. -/
@[reducible] def withDivision (div rem : α → α → α) : Scalar α := { s with div, rem }

/-- A division and a remainder that are the usual ones for one divisor. -/
structure RightFor (div rem : α → α → α) (d : α) : Prop where
  div_eq (x : α) : div x d = x / d
  rem_eq (x : α) : rem x d = Scalar.rem x d

/-- A division and a remainder that are the usual ones for all divisors of a set. -/
def RightOn (div rem : α → α → α) (divisors : Set α) : Prop := ∀ d ∈ divisors, RightFor div rem d

variable {div rem : α → α → α}

@[simp] theorem rightOn_union {S T : Set α} :
    RightOn div rem (S ∪ T) ↔ RightOn div rem S ∧ RightOn div rem T := by
  simp only [RightOn, Set.mem_union, or_imp, forall_and]

@[simp] theorem rightOn_insert {d : α} {S : Set α} :
    RightOn div rem (insert d S) ↔ RightFor div rem d ∧ RightOn div rem S :=
  Set.forall_mem_insert

@[simp] theorem rightOn_singleton {d : α} : RightOn div rem {d} ↔ RightFor div rem d := by
  simp only [RightOn, Set.mem_singleton_iff, forall_eq]

@[simp] theorem rightOn_range {f : α → α} :
    RightOn div rem (Set.range f) ↔ ∀ x, RightFor div rem (f x) :=
  Set.forall_mem_range

theorem withDivision_div (x d : α) :
    @HDiv.hDiv α α α (@instHDiv α (@toDiv α (withDivision div rem))) x d = div x d := rfl

theorem withDivision_rem (x d : α) :
    @Scalar.rem α (withDivision div rem) x d = rem x d := rfl

theorem withDivision_hypot :
    @Scalar.hypot α (withDivision div rem) = Scalar.hypot := rfl

end Scalar

open Scalar

/-! ## The divisors -/

/-- The numbers that formulas divide by. -/
def constantDivisors : Set α := {2, 6, 180, 360, 2.4, 12.92, 1.055}

def Size.divisors (viewport : Size α) : Set α :=
  {max viewport.width minViewportExtent, max viewport.height minViewportExtent}

def PreparedGradient.divisors (g : PreparedGradient α) (size : Size α) : Set α :=
  let dir := gradientDirection g.angle size
  {if size.height < size.width then size.width else max size.height gradientEpsilon,
    max (Scalar.hypot dir.x dir.y) gradientEpsilon,
    max size.width gradientEpsilon, max size.height gradientEpsilon,
    gradientSpan g.firstPosition g.lastPosition}

def PreparedFill.divisors (size : Size α) : PreparedFill α → Set α
  | solid _ => ∅
  | linear g => g.divisors size

def Rgba.coverDivisors (below above : Rgba α) : Set α :=
  let alpha := above.a + below.a * (1 - above.a)
  if alpha ≤ 0 then ∅ else {alpha}

def ellipseDivisors (radii : Point α) : Set α :=
  {max radii.x minEllipseRadius, max radii.y minEllipseRadius}

/-- The radii of the inside edge of a border in a rounded corner. -/
def QuadCorner.innerRadii (c : QuadCorner α) : Point α :=
  ⟨max 0 (c.radius - c.border.x), max 0 (c.radius - c.border.y)⟩

def Quad.divisors (q : Quad α) (v : QuadVarying α) (p : Point α) : Set α :=
  v.fill.divisors q.bounds.size ∪ (v.fill.colorAt p q.bounds).coverDivisors v.borderColor
    ∪ ellipseDivisors (q.corner p).innerRadii

def erfDivisor (v : α) : α :=
  let a := Scalar.abs v
  let r := 1 + (0.278393 + (0.230389 + (0.000972 + 0.078108 * a) * a) * a) * a
  let r2 := r * r
  r2 * r2

/-- At any point, whatever the arguments of the error function are there. -/
def Shadow.divisors (s : Shadow α) (samples : α) : Set α :=
  let sigma := s.blurRadius
  if sigma < minBlurRadius then ∅
  else {samples, sigma, 2 * sigma * sigma, Scalar.sqrt (2 * Scalar.pi) * sigma}
    ∪ Set.range erfDivisor

def Triangle.divisors (t : Triangle α) : Set α := if t.cross == 0 then ∅ else {t.cross}

namespace TriangleVarying

/-- How steeply the curve function rises at a point. -/
def slopeAt (v : TriangleVarying α) (p : Point α) : α :=
  let st := v.curveAt p
  Scalar.hypot (2 * st.x * v.dx.x - v.dx.y) (2 * st.x * v.dy.x - v.dy.y)

def divisors (v : TriangleVarying α) (p : Point α) : Set α :=
  if v.slopeAt p < minSlope then ∅ else {v.slopeAt p}

end TriangleVarying

def Transformation.divisors (t : Transformation α) : Set α :=
  if Scalar.abs t.det < minDet then ∅ else {t.det}

def Bounds.divisors (b : Bounds α) : Set α :=
  {max b.size.width minExtent, max b.size.height minExtent}

def BoundTexture.divisors (bound : BoundTexture α) : Set α :=
  {max bound.texture.dimensions.width minExtent, max bound.texture.dimensions.height minExtent}

/-- The divisors for the texture of a tile, if the atlas holds it. -/
def Tile.divisors (tile : Tile α) (atlas : Option (Atlas α)) : Set α :=
  {d | ∃ bound ∈ tile.bind atlas, d ∈ bound.divisors}

/-- What the two stages of an item divide by, the second one at a point. -/
def Item.divisors (ctx : FrameContext α) (p : Point α) (item : Item α) : Set α :=
  constantDivisors ∪ ctx.viewport.divisors ∪
    match item with
    | quad q => q.divisors (q.project ctx).varying p
    | shadow s => s.divisors (Scalar.ofNat ctx.shadowSamples)
    | monochromeSprite s =>
      s.transformation.divisors ∪ s.bounds.divisors ∪ s.tile.divisors ctx.atlas
    | polychromeSprite s => s.bounds.divisors ∪ s.tile.divisors ctx.atlas
    | triangle t => t.divisors ∪ t.varying.fill.divisors t.a.bounds.size ∪ t.varying.divisors p
    | underline _ => ∅

/-- Where the vertices of an item are in device space. -/
def Item.devicePositions (ctx : FrameContext α) : Item α → List (DevicePosition α)
  | quad q => (q.project ctx).devicePositions
  | shadow s => (s.project ctx).devicePositions
  | monochromeSprite s => (s.project ctx).devicePositions
  | polychromeSprite s => (s.project ctx).devicePositions
  | triangle t => (t.project ctx).devicePositions
  | underline u => (u.project ctx).devicePositions

/-- What the bytes of a frame are divided by. -/
def Frame.divisors (f : Frame α) : Set α :=
  constantDivisors ∪ {d | ∃ i < f.width * f.height,
    d = saturate (Buffer.pixel f.data (i * 4 : Nat)).a ∧ ¬ (d == 0) = true}

/-! ## Colours -/

section
variable {div rem : α → α → α} (hconstant : RightOn div rem constantDivisors)
include hconstant

theorem rightFor_two : RightFor div rem 2 := hconstant 2 (by simp [constantDivisors])

theorem decodeChannel_withDivision (v : α) :
    @decodeChannel α (.withDivision div rem) v = decodeChannel v :=
  if_congr Iff.rfl ((hconstant 12.92 (by simp [constantDivisors])).div_eq v)
    (congrArg (Scalar.pow · 2.4)
      ((hconstant 1.055 (by simp [constantDivisors])).div_eq (v + 0.055)))

theorem encodeChannel_withDivision (v : α) :
    @encodeChannel α (.withDivision div rem) v = encodeChannel v :=
  if_congr Iff.rfl rfl (congrArg (fun exponent => 1.055 * Scalar.pow v exponent - 0.055)
    ((hconstant 2.4 (by simp [constantDivisors])).div_eq 1))

theorem toSrgb_withDivision (c : Hsla α) :
    @Hsla.toSrgb α (.withDivision div rem) c = c.toSrgb := by
  have htwo := rightFor_two hconstant
  unfold Hsla.toSrgb
  simp only [Scalar.withDivision_div, Scalar.withDivision_rem, htwo.div_eq, htwo.rem_eq]
  rfl

theorem decode_withDivision (c : Rgba α) : @Rgba.decode α (.withDivision div rem) c = c.decode :=
  congrArg c.mapColor (funext (decodeChannel_withDivision hconstant))

theorem encode_withDivision (c : Rgba α) : @Rgba.encode α (.withDivision div rem) c = c.encode :=
  congrArg c.mapColor (funext (encodeChannel_withDivision hconstant))

theorem toLinear_withDivision (c : Hsla α) :
    @Hsla.toLinear α (.withDivision div rem) c = c.toLinear :=
  (decode_withDivision hconstant _).trans (congrArg Rgba.decode (toSrgb_withDivision hconstant c))

theorem enter_withDivision (space : ColorSpace) (c : Rgba α) :
    @ColorSpace.enter α (.withDivision div rem) space c = space.enter c := by
  cases space with
  | srgb => exact encode_withDivision hconstant c
  | oklab => rfl
  | linear => rfl

theorem leave_withDivision (space : ColorSpace) (c : Rgba α) :
    @ColorSpace.leave α (.withDivision div rem) space c = space.leave c := by
  cases space with
  | srgb => exact decode_withDivision hconstant c
  | oklab => rfl
  | linear => rfl

theorem prepare_withDivision (fill : Fill α) :
    @Fill.prepare α (.withDivision div rem) fill = fill.prepare := by
  cases fill with
  | solid c => exact congrArg PreparedFill.solid (toLinear_withDivision hconstant c)
  | linear g =>
    simp only [Fill.prepare, toLinear_withDivision hconstant, enter_withDivision hconstant]

/-! ## Gradients -/

theorem gradientDirection_withDivision {angle : α} {size : Size α}
    (h : RightFor div rem
      (if size.height < size.width then size.width else max size.height gradientEpsilon)) :
    @gradientDirection α (.withDivision div rem) angle size = gradientDirection angle size := by
  have hturn := hconstant 360 (by simp [constantDivisors])
  have hhalf := hconstant 180 (by simp [constantDivisors])
  unfold gradientDirection
  simp only [Scalar.withDivision_div, Scalar.withDivision_rem, hturn.rem_eq, hhalf.div_eq]
  by_cases hwide : size.height < size.width
  · rw [if_pos hwide] at h
    rw [if_pos hwide, if_pos hwide, h.div_eq]
    rfl
  · rw [if_neg hwide] at h
    rw [if_neg hwide, if_neg hwide]
    exact congrArg (fun q => Point.mk (Scalar.cos _ * q) _) (h.div_eq size.width)

theorem gradientAxis_withDivision {g : PreparedGradient α} {bounds : Bounds α}
    (h : RightOn div rem (g.divisors bounds.size)) (p : Point α) :
    @gradientAxis α (.withDivision div rem) g.angle p bounds = gradientAxis g.angle p bounds := by
  simp only [PreparedGradient.divisors, gradientEpsilon, rightOn_insert,
    rightOn_singleton] at h
  obtain ⟨hdirection, hlength, hwidth, hheight, -⟩ := h
  have htwo := rightFor_two hconstant
  unfold gradientAxis
  simp only [gradientDirection_withDivision hconstant hdirection, Scalar.withDivision_div,
    Scalar.withDivision_hypot, htwo.div_eq, gradientEpsilon, hlength.div_eq, hwidth.div_eq,
    hheight.div_eq]
  rfl

theorem gradientParameter_withDivision {g : PreparedGradient α} {bounds : Bounds α}
    (h : RightOn div rem (g.divisors bounds.size)) (p : Point α) :
    @gradientParameter α (.withDivision div rem) g.angle g.firstPosition g.lastPosition p bounds =
      gradientParameter g.angle g.firstPosition g.lastPosition p bounds := by
  have hspan := h (gradientSpan g.firstPosition g.lastPosition)
    (by simp [PreparedGradient.divisors])
  unfold gradientParameter
  rw [gradientAxis_withDivision hconstant h]
  exact congrArg (fun t => saturate t) (hspan.div_eq _)

theorem colorAt_withDivision {fill : PreparedFill α} {bounds : Bounds α}
    (h : RightOn div rem (fill.divisors bounds.size)) (p : Point α) :
    @PreparedFill.colorAt α (.withDivision div rem) fill p bounds = fill.colorAt p bounds := by
  cases fill with
  | solid c => rfl
  | linear g =>
    exact (leave_withDivision hconstant _ _).trans
      (congrArg (fun t => g.space.leave (g.firstColor.lerp g.lastColor t))
        (gradientParameter_withDivision hconstant h p))

/-! ## Geometry -/

omit hconstant in
theorem toDevice_withDivision {viewport : Size α}
    (h : RightOn div rem viewport.divisors) (p : Point α) :
    @Point.toDevice α (.withDivision div rem) p viewport = p.toDevice viewport :=
  congrArg₂ (fun x y => DevicePosition.mk (x * 2 - 1) (y * -2 + 1) 0 1)
    ((h _ (Set.mem_insert ..)).div_eq p.x) ((h _ (Set.mem_insert_of_mem _ rfl)).div_eq p.y)

omit hconstant in
theorem devicePositions_withDivision {viewport : Size α}
    (h : RightOn div rem viewport.divisors) (b : Bounds α) :
    @Bounds.devicePositions α (.withDivision div rem) b viewport = b.devicePositions viewport :=
  List.map_congr_left fun unit _ => toDevice_withDivision h (b.place unit)

theorem center_withDivision (b : Bounds α) :
    @Bounds.center α (.withDivision div rem) b = b.center :=
  have htwo := rightFor_two hconstant
  congrArg₂ (fun x y => Point.mk (b.origin.x + x) (b.origin.y + y))
    (htwo.div_eq b.size.width) (htwo.div_eq b.size.height)

theorem beyondCorner_withDivision (b : Bounds α) (fromCenter : Point α) :
    @Bounds.beyondCorner α (.withDivision div rem) b fromCenter = b.beyondCorner fromCenter :=
  have htwo := rightFor_two hconstant
  congrArg₂ (fun x y => Point.mk (Scalar.abs fromCenter.x - x) (Scalar.abs fromCenter.y - y))
    (htwo.div_eq b.size.width) (htwo.div_eq b.size.height)

theorem roundedDistance_withDivision (b : Bounds α) (radii : Corners α) (p : Point α) :
    @Bounds.roundedDistance α (.withDivision div rem) b radii p = b.roundedDistance radii p := by
  unfold Bounds.roundedDistance
  simp only [center_withDivision hconstant, beyondCorner_withDivision hconstant]
  rfl

omit hconstant in
theorem ellipseDistance_withDivision {radii : Point α}
    (h : RightOn div rem (ellipseDivisors radii)) (p : Point α) :
    @ellipseDistance α (.withDivision div rem) p radii = ellipseDistance p radii :=
  congrArg₂
    (fun x y => (Scalar.hypot x y - 1) *
      (max radii.x minEllipseRadius + max radii.y minEllipseRadius) * -0.5)
    ((h _ (Set.mem_insert ..)).div_eq p.x) ((h _ (Set.mem_insert_of_mem _ rfl)).div_eq p.y)

omit hconstant in
theorem coveredBy_withDivision {below above : Rgba α}
    (h : RightOn div rem (below.coverDivisors above)) :
    @Rgba.coveredBy α (.withDivision div rem) below above = below.coveredBy above := by
  unfold Rgba.coverDivisors at h
  unfold Rgba.coveredBy
  by_cases halpha : above.a + below.a * (1 - above.a) ≤ 0
  · rw [if_pos halpha, if_pos halpha]
    rfl
  · rw [if_neg halpha] at h
    have hdiv := h _ rfl
    rw [if_neg halpha, if_neg halpha]
    simp only [Scalar.withDivision_div, hdiv.div_eq]

/-! ## Quads -/

omit hconstant in
theorem inner_withDivision {c : QuadCorner α}
    (h : RightOn div rem (ellipseDivisors c.innerRadii)) :
    @QuadCorner.inner α (.withDivision div rem) c = c.inner :=
  if_congr Iff.rfl rfl <| if_congr Iff.rfl rfl <| if_congr Iff.rfl rfl
    (ellipseDistance_withDivision h c.fromCircle)

omit hconstant in
theorem colorByDistance_withDivision {c : QuadCorner α} {fill border : Rgba α}
    (hellipse : RightOn div rem (ellipseDivisors c.innerRadii))
    (hcover : RightOn div rem (fill.coverDivisors border)) (premultiplied : Bool) :
    @QuadCorner.colorByDistance α (.withDivision div rem) c fill border premultiplied =
      c.colorByDistance fill border premultiplied := by
  unfold QuadCorner.colorByDistance QuadCorner.mixBorder
  simp only [inner_withDivision hellipse, coveredBy_withDivision hcover]
  rfl

theorem corner_withDivision (q : Quad α) (p : Point α) :
    @Quad.corner α (.withDivision div rem) q p = q.corner p := by
  unfold Quad.corner
  simp only [center_withDivision hconstant, beyondCorner_withDivision hconstant]
  rfl

theorem project_quad_withDivision {ctx : FrameContext α}
    (h : RightOn div rem ctx.viewport.divisors) (q : Quad α) :
    @Quad.project α (.withDivision div rem) q ctx = q.project ctx := by
  unfold Quad.project
  simp only [devicePositions_withDivision h, prepare_withDivision hconstant,
    toLinear_withDivision hconstant]
  rfl

theorem evaluate_quad_withDivision {q : Quad α} {v : QuadVarying α} {p : Point α}
    (h : RightOn div rem (q.divisors v p)) (ctx : FrameContext α) :
    @Quad.evaluate α (.withDivision div rem) q v p ctx = q.evaluate v p ctx := by
  simp only [Quad.divisors, rightOn_union] at h
  obtain ⟨⟨hfill, hcover⟩, hellipse⟩ := h
  unfold Quad.evaluate
  simp only [colorAt_withDivision hconstant hfill, corner_withDivision hconstant,
    colorByDistance_withDivision hellipse hcover]
  rfl

/-! ## Shadows -/

omit hconstant in
theorem erf_withDivision {v : α} (h : RightFor div rem (erfDivisor v)) :
    @erf α (.withDivision div rem) v = erf v :=
  congrArg (Scalar.sign v - ·) (h.div_eq (Scalar.sign v))

omit hconstant in
theorem gaussian_withDivision {sigma : α} (hexponent : RightFor div rem (2 * sigma * sigma))
    (hscale : RightFor div rem (Scalar.sqrt (2 * Scalar.pi) * sigma)) (x : α) :
    @gaussian α (.withDivision div rem) x sigma = gaussian x sigma :=
  (hscale.div_eq _).trans (congrArg (Scalar.exp · / (Scalar.sqrt (2 * Scalar.pi) * sigma))
    (hexponent.div_eq (-(x * x))))

omit hconstant in
theorem blurredRow_withDivision {sigma : α} (hsigma : RightFor div rem sigma)
    (herf : ∀ v, RightFor div rem (erfDivisor v)) (x y radius halfWidth halfHeight : α) :
    @blurredRow α (.withDivision div rem) x y sigma radius halfWidth halfHeight =
      blurredRow x y sigma radius halfWidth halfHeight := by
  unfold blurredRow
  simp only [Scalar.withDivision_div, hsigma.div_eq, erf_withDivision (herf _)]
  rfl

omit hconstant in
theorem sumSamples_withDivision {sigma : α}
    (hgaussian : ∀ x, @gaussian α (.withDivision div rem) x sigma = gaussian x sigma)
    (row : α → α) (step : α) (count : ℕ) (y sum : α) :
    @Shadow.sumSamples α (.withDivision div rem) row sigma step count y sum =
      Shadow.sumSamples row sigma step count y sum := by
  induction count generalizing y sum with
  | zero => rfl
  | succ count ih =>
    exact (ih _ _).trans (congrArg
      (fun weight =>
        Shadow.sumSamples row sigma step count (y + step) (sum + row y * weight * step))
      (hgaussian y))

theorem coverage_shadow_withDivision {shadow : Shadow α} {samples : α}
    (h : RightOn div rem (shadow.divisors samples)) (p : Point α) :
    @Shadow.coverage α (.withDivision div rem) shadow p samples = shadow.coverage p samples := by
  have htwo := rightFor_two hconstant
  unfold Shadow.divisors at h
  unfold Shadow.coverage
  dsimp only at h ⊢
  refine ite_congr rfl (fun _ => ?_) fun hblurred => ?_
  · rw [roundedDistance_withDivision hconstant]
    rfl
  · rw [if_neg hblurred] at h
    simp only [rightOn_union, rightOn_insert, rightOn_singleton,
      rightOn_range] at h
    obtain ⟨⟨hsamples, hsigma, hexponent, hscale⟩, herf⟩ := h
    simp only [center_withDivision hconstant, Scalar.withDivision_div, htwo.div_eq,
      hsamples.div_eq, blurredRow_withDivision hsigma herf,
      sumSamples_withDivision (gaussian_withDivision hexponent hscale)]
    rfl

theorem project_shadow_withDivision {ctx : FrameContext α}
    (h : RightOn div rem ctx.viewport.divisors) (shadow : Shadow α) :
    @Shadow.project α (.withDivision div rem) shadow ctx = shadow.project ctx := by
  unfold Shadow.project
  simp only [devicePositions_withDivision h, toLinear_withDivision hconstant]
  rfl

theorem evaluate_shadow_withDivision {shadow : Shadow α} {ctx : FrameContext α}
    (h : RightOn div rem (shadow.divisors (Scalar.ofNat ctx.shadowSamples)))
    (v : ShadowVarying α) (p : Point α) :
    @Shadow.evaluate α (.withDivision div rem) shadow v p ctx = shadow.evaluate v p ctx :=
  if_congr Iff.rfl rfl (congrArg (v.color.fade · ctx.premultipliedAlpha)
    (coverage_shadow_withDivision hconstant h p))

/-! ## Triangles -/

theorem varying_withDivision {t : Triangle α} (h : RightOn div rem t.divisors) :
    @Triangle.varying α (.withDivision div rem) t = t.varying := by
  unfold Triangle.divisors at h
  unfold Triangle.varying
  dsimp only
  simp only [prepare_withDivision hconstant]
  refine ite_congr rfl (fun _ => rfl) fun harea => ?_
  rw [if_neg harea] at h
  have hcross : RightFor div rem (@Triangle.cross α (.withDivision div rem) t) := h _ rfl
  simp only [Scalar.withDivision_div, hcross.div_eq]
  rfl

theorem project_triangle_withDivision {ctx : FrameContext α} {t : Triangle α}
    (hview : RightOn div rem ctx.viewport.divisors) (h : RightOn div rem t.divisors) :
    @Triangle.project α (.withDivision div rem) t ctx = t.project ctx := by
  unfold Triangle.project
  simp only [toDevice_withDivision hview, varying_withDivision hconstant h]
  rfl

omit hconstant in
theorem curveCoverage_withDivision {v : TriangleVarying α} {p : Point α}
    (h : RightOn div rem (v.divisors p)) :
    @TriangleVarying.curveCoverage α (.withDivision div rem) v p = v.curveCoverage p := by
  unfold TriangleVarying.divisors at h
  refine ite_congr rfl (fun _ => rfl) fun (hsteep : ¬ v.slopeAt p < TriangleVarying.minSlope) => ?_
  rw [if_neg hsteep] at h
  exact congrArg (fun q => saturate (0.5 - q)) ((h _ rfl).div_eq _)

theorem evaluate_triangle_withDivision {t : Triangle α} {v : TriangleVarying α} {p : Point α}
    (hfill : RightOn div rem (v.fill.divisors t.a.bounds.size))
    (hslope : RightOn div rem (v.divisors p)) (ctx : FrameContext α) :
    @Triangle.evaluate α (.withDivision div rem) t v p ctx = t.evaluate v p ctx := by
  unfold Triangle.evaluate
  simp only [colorAt_withDivision hconstant hfill, curveCoverage_withDivision hslope]
  rfl

/-! ## Sprites -/

omit hconstant in
theorem inverse?_withDivision {t : Transformation α}
    (h : RightOn div rem t.divisors) :
    @Transformation.inverse? α (.withDivision div rem) t = t.inverse? := by
  unfold Transformation.divisors at h
  refine ite_congr rfl (fun _ => rfl) fun hregular => ?_
  rw [if_neg hregular] at h
  have hdet : RightFor div rem (@Transformation.det α (.withDivision div rem) t) := h _ rfl
  simp only [Scalar.withDivision_div, hdet.div_eq]
  rfl

omit hconstant in
theorem toUnit_withDivision {b : Bounds α} (h : RightOn div rem b.divisors)
    (p : Point α) : @Bounds.toUnit α (.withDivision div rem) b p = b.toUnit p :=
  congrArg₂ Point.mk ((h _ (Set.mem_insert ..)).div_eq _)
    ((h _ (Set.mem_insert_of_mem _ rfl)).div_eq _)

omit hconstant in
theorem sample_tile_withDivision {bound : BoundTexture α}
    (h : RightOn div rem bound.divisors) (tile : Tile α) (unit : Point α) :
    @Tile.sample α (.withDivision div rem) tile bound unit = tile.sample bound unit :=
  congrArg bound.texture.sample (congrArg₂ Point.mk ((h _ (Set.mem_insert ..)).div_eq _)
    ((h _ (Set.mem_insert_of_mem _ rfl)).div_eq _))

omit hconstant in
theorem rightOn_bound {tile : Tile α} {atlas : Option (Atlas α)}
    (h : RightOn div rem (tile.divisors atlas)) :
    ∀ bound ∈ tile.bind atlas, RightOn div rem bound.divisors :=
  fun bound hbound d hd => h d ⟨bound, hbound, hd⟩

theorem project_monochrome_withDivision {ctx : FrameContext α} {sprite : MonochromeSprite α}
    (hview : RightOn div rem ctx.viewport.divisors)
    (h : RightOn div rem sprite.transformation.divisors) :
    @MonochromeSprite.project α (.withDivision div rem) sprite ctx = sprite.project ctx := by
  unfold MonochromeSprite.project
  simp only [toDevice_withDivision hview, toLinear_withDivision hconstant,
    inverse?_withDivision h]
  rfl

omit hconstant in
theorem evaluate_monochrome_withDivision {sprite : MonochromeSprite α} {v : MonochromeVarying α}
    (hbounds : RightOn div rem sprite.bounds.divisors)
    (htexture : ∀ bound ∈ v.texture, RightOn div rem bound.divisors) (p : Point α)
    (ctx : FrameContext α) :
    @MonochromeSprite.evaluate α (.withDivision div rem) sprite v p ctx =
      sprite.evaluate v p ctx := by
  obtain ⟨color, texture, inverse⟩ := v
  cases texture with
  | none => rfl
  | some bound =>
    cases inverse with
    | none => rfl
    | some inverse =>
      unfold MonochromeSprite.evaluate
      simp only [toUnit_withDivision hbounds, sample_tile_withDivision (htexture bound rfl)]
      rfl

omit hconstant in
theorem project_polychrome_withDivision {ctx : FrameContext α}
    (hview : RightOn div rem ctx.viewport.divisors) (sprite : PolychromeSprite α) :
    @PolychromeSprite.project α (.withDivision div rem) sprite ctx = sprite.project ctx := by
  unfold PolychromeSprite.project
  simp only [devicePositions_withDivision hview]

theorem coverage_polychrome_withDivision (sprite : PolychromeSprite α) (p : Point α)
    (ctx : FrameContext α) :
    @PolychromeSprite.coverage α (.withDivision div rem) sprite p ctx = sprite.coverage p ctx := by
  unfold PolychromeSprite.coverage
  rw [roundedDistance_withDivision hconstant]
  rfl

theorem evaluate_polychrome_withDivision {sprite : PolychromeSprite α} {v : PolychromeVarying α}
    (hbounds : RightOn div rem sprite.bounds.divisors)
    (htexture : ∀ bound ∈ v.texture, RightOn div rem bound.divisors) (p : Point α)
    (ctx : FrameContext α) :
    @PolychromeSprite.evaluate α (.withDivision div rem) sprite v p ctx =
      sprite.evaluate v p ctx := by
  obtain ⟨texture⟩ := v
  cases texture with
  | none => rfl
  | some bound =>
    unfold PolychromeSprite.evaluate
    simp only [toUnit_withDivision hbounds, sample_tile_withDivision (htexture bound rfl),
      coverage_polychrome_withDivision hconstant]
    rfl

/-! ## Underlines -/

theorem project_underline_withDivision {ctx : FrameContext α}
    (hview : RightOn div rem ctx.viewport.divisors) (u : Underline α) :
    @Underline.project α (.withDivision div rem) u ctx = u.project ctx := by
  unfold Underline.project
  simp only [devicePositions_withDivision hview, toLinear_withDivision hconstant]
  rfl

theorem waveTop_withDivision (x : α) :
    @Underline.waveTop α (.withDivision div rem) x = Underline.waveTop x := by
  have hsix := hconstant 6 (by simp [constantDivisors])
  simp only [Underline.waveTop, Underline.wavePeriod, Scalar.withDivision_div, hsix.div_eq]
  rfl

theorem waveCoverage_withDivision (thickness x y : α) :
    @Underline.waveCoverage α (.withDivision div rem) thickness x y =
      Underline.waveCoverage thickness x y := by
  have htwo := rightFor_two hconstant
  unfold Underline.waveCoverage
  simp only [waveTop_withDivision hconstant, Scalar.withDivision_div, htwo.div_eq]
  rfl

theorem evaluate_underline_withDivision (u : Underline α) (v : UnderlineVarying α) (p : Point α)
    (ctx : FrameContext α) :
    @Underline.evaluate α (.withDivision div rem) u v p ctx = u.evaluate v p ctx := by
  unfold Underline.evaluate
  simp only [waveCoverage_withDivision hconstant]
  rfl

/-! ## Frames -/

theorem toBytes_pixel_withDivision {c : Rgba α}
    (h : ¬ (saturate c.a == 0) = true → RightFor div rem (saturate c.a)) :
    @Rgba.toBytes α (.withDivision div rem) c = c.toBytes := by
  refine ite_congr rfl (fun _ => rfl) fun hvisible => ?_
  have halpha : RightFor div rem (@saturate α (.withDivision div rem) c.a) := h hvisible
  simp only [Scalar.withDivision_div, halpha.div_eq, encodeChannel_withDivision hconstant]
  rfl

end

variable {div rem : α → α → α}

/-- The bytes of a frame need a division that is right for the frame's divisors, no other. -/
theorem toBytes_withDivision {f : Frame α} (h : RightOn div rem f.divisors) :
    @Frame.toBytes α (.withDivision div rem) f = f.toBytes := by
  have hconstant : RightOn div rem constantDivisors := fun d hd => h d (.inl hd)
  refine congrArg List.flatten (List.map_congr_left fun i hi => ?_)
  refine toBytes_pixel_withDivision hconstant fun hvisible => h _ (.inr ?_)
  exact ⟨i, List.mem_range.mp hi, rfl, hvisible⟩

theorem paint_withDivision {ctx : FrameContext α} {p : Point α} {item : Item α}
    (h : RightOn div rem (item.divisors ctx p)) :
    @Item.devicePositions α (.withDivision div rem) ctx item = item.devicePositions ctx ∧
      (@Item.paint α (.withDivision div rem) ctx item).rasterBounds =
        (item.paint ctx).rasterBounds ∧
      (@Item.paint α (.withDivision div rem) ctx item).colorAt p = (item.paint ctx).colorAt p := by
  simp only [Item.divisors, rightOn_union] at h
  obtain ⟨⟨hconstant, hview⟩, h⟩ := h
  cases item with
  | quad q =>
    have hproject := project_quad_withDivision hconstant hview q
    simp only [Item.devicePositions, Item.paint, hproject, true_and]
    exact evaluate_quad_withDivision hconstant h ctx
  | shadow shadow =>
    have hproject := project_shadow_withDivision hconstant hview shadow
    simp only [Item.devicePositions, Item.paint, hproject, true_and]
    exact evaluate_shadow_withDivision hconstant h _ p
  | monochromeSprite sprite =>
    simp only [rightOn_union] at h
    obtain ⟨⟨hdet, hbounds⟩, htexture⟩ := h
    have hproject := project_monochrome_withDivision hconstant hview hdet
    simp only [Item.devicePositions, Item.paint, hproject, true_and]
    exact evaluate_monochrome_withDivision hbounds (rightOn_bound htexture) p ctx
  | polychromeSprite sprite =>
    simp only [rightOn_union] at h
    obtain ⟨hbounds, htexture⟩ := h
    have hproject := project_polychrome_withDivision hview sprite
    simp only [Item.devicePositions, Item.paint, hproject, true_and]
    exact evaluate_polychrome_withDivision hconstant hbounds (rightOn_bound htexture) p ctx
  | triangle t =>
    simp only [rightOn_union] at h
    obtain ⟨⟨hcross, hfill⟩, hslope⟩ := h
    have hproject := project_triangle_withDivision hconstant hview hcross
    simp only [Item.devicePositions, Item.paint, hproject, true_and]
    exact evaluate_triangle_withDivision hconstant hfill hslope ctx
  | underline u =>
    have hproject := project_underline_withDivision hconstant hview u
    simp only [Item.devicePositions, Item.paint, hproject, true_and]
    exact evaluate_underline_withDivision hconstant u _ p ctx

end Raster
