import Raster.Scalar.Real
import Raster.Proofs.RasterBounds

/-!
# The order of vertices

A triangle is drawn the same whichever of its vertices comes first and
whichever way round they are given (`Triangle.vertex_order_unseen`), as
long as all three carry the same clip, bounds and fill.

The position in curve space is computed from the first vertex and four
derivatives, each of them divided by the signed area. Orders are not
compared formula by formula. The position is affine in the point
(`TriangleVarying.curveAt_weightedMean`) and right at the three vertices
(`Triangle.curveAt_position`), every point is a mean of these, and so the
position at a point is the mean of the vertices' under the same weights. The
coverage reads nothing but this function: the derivatives are its steps
(`TriangleVarying.dx_eq`). Which points the edges admit is told by the
interior of the triangle, which has no order.
-/

namespace Raster

/-! ## Positions in curve space -/

namespace TriangleVarying

theorem curveAt_weightedMean (v : TriangleVarying ℝ) {x y z : ℝ} (hsum : x + y + z = 1)
    (a b c : Point ℝ) :
    v.curveAt (weightedMean x y z a b c)
      = weightedMean x y z (v.curveAt a) (v.curveAt b) (v.curveAt c) := by
  obtain rfl : x = 1 - y - z := by linarith
  simp only [curveAt, weightedMean, Point.mk.injEq]
  constructor <;> ring

theorem dx_eq (v : TriangleVarying ℝ) : v.dx = (v.curveAt ⟨1, 0⟩).sub (v.curveAt ⟨0, 0⟩) := by
  obtain ⟨edges, origin, curve, ⟨x, y⟩, dy, fill⟩ := v
  simp only [curveAt, Point.sub, Point.mk.injEq]
  constructor <;> ring

theorem dy_eq (v : TriangleVarying ℝ) : v.dy = (v.curveAt ⟨0, 1⟩).sub (v.curveAt ⟨0, 0⟩) := by
  obtain ⟨edges, origin, curve, dx, ⟨x, y⟩, fill⟩ := v
  simp only [curveAt, Point.sub, Point.mk.injEq]
  constructor <;> ring

/-- The coverage depends on the positions in curve space and not on how they are computed. -/
theorem curveCoverage_congr {v v' : TriangleVarying ℝ} (h : ∀ p, v.curveAt p = v'.curveAt p)
    (p : Point ℝ) : v.curveCoverage p = v'.curveCoverage p := by
  have hdx : v.dx = v'.dx := by rw [dx_eq, dx_eq, h, h]
  have hdy : v.dy = v'.dy := by rw [dy_eq, dy_eq, h, h]
  unfold curveCoverage
  rw [h, hdx, hdy]

theorem curveCoverage_of_constant {v : TriangleVarying ℝ} {st : Point ℝ}
    (h : ∀ p, v.curveAt p = st) (p : Point ℝ) : v.curveCoverage p = 1 := by
  have hstep : st.sub st = ⟨0, 0⟩ := by simp only [Point.sub, sub_self]
  have hdx : v.dx = ⟨0, 0⟩ := by rw [dx_eq, h, h, hstep]
  have hdy : v.dy = ⟨0, 0⟩ := by rw [dy_eq, h, h, hstep]
  have hslope : Scalar.hypot (2 * st.x * 0 - 0) (2 * st.x * 0 - 0) < (minSlope : ℝ) := by
    show Real.sqrt ((2 * st.x * 0 - 0) * (2 * st.x * 0 - 0)
      + (2 * st.x * 0 - 0) * (2 * st.x * 0 - 0)) < 1e-6
    norm_num
  unfold curveCoverage
  rw [h, hdx, hdy]
  exact if_pos hslope

end TriangleVarying

namespace Triangle

variable {t t' : Triangle ℝ}

/-- At each vertex the position in curve space is the one that the vertex carries. -/
theorem curveAt_position (hne : t.cross ≠ 0) {r : VertexRecord ℝ} (hr : r ∈ [t.a, t.b, t.c]) :
    t.varying.curveAt r.position = r.curve := by
  have hcross : ¬ (t.cross == 0) = true := fun hzero => hne (Scalar.beq_iff_eq.mp hzero)
  rw [varying, if_neg hcross]
  simp only [List.mem_cons, List.not_mem_nil, or_false] at hr
  simp only [TriangleVarying.curveAt]
  rcases hr with rfl | rfl | rfl
  · simp only [sub_self, mul_zero, add_zero]
  · refine congrArg₂ Point.mk ?_ ?_ <;> field_simp <;> simp only [cross, Point.sub] <;> ring
  · refine congrArg₂ Point.mk ?_ ?_ <;> field_simp <;> simp only [cross, Point.sub] <;> ring

theorem exists_weights (hne : t.cross ≠ 0) (p : Point ℝ) :
    ∃ u v w, u + v + w = 1 ∧ p = weightedMean u v w t.a.position t.b.position t.c.position :=
  exists_eq_weightedMean hne p

/-- The position at a mean of the vertices is the mean of the positions that they carry. -/
theorem curveAt_mean (hne : t.cross ≠ 0) {u v w : ℝ} (hsum : u + v + w = 1) :
    t.varying.curveAt (weightedMean u v w t.a.position t.b.position t.c.position)
      = weightedMean u v w t.a.curve t.b.curve t.c.curve := by
  rw [TriangleVarying.curveAt_weightedMean _ hsum, curveAt_position hne (by simp),
    curveAt_position hne (by simp), curveAt_position hne (by simp)]

theorem curveAt_of_constant (hne : t.cross ≠ 0) {st : Point ℝ}
    (hcurve : ∀ r ∈ [t.a, t.b, t.c], r.curve = st) (p : Point ℝ) : t.varying.curveAt p = st := by
  obtain ⟨u, v, w, hsum, rfl⟩ := exists_weights hne p
  rw [curveAt_mean hne hsum, hcurve t.a (by simp), hcurve t.b (by simp), hcurve t.c (by simp)]
  refine congrArg₂ Point.mk ?_ ?_ <;> rw [← add_mul, ← add_mul, hsum, one_mul]

/-! ## Orders -/

section
variable (hne : t.cross ≠ 0) (horder : [t'.a, t'.b, t'.c].Perm [t.a, t.b, t.c])
include hne horder

theorem cross_ne_zero_of_perm : t'.cross ≠ 0 := by
  have hcorners : t'.HasCorners t.a.position t.b.position t.c.position :=
    horder.map VertexRecord.position
  exact hcorners.cross_ne_zero_iff.mpr hne

/-- The interior has no order, and it decides which points a triangle has. -/
theorem covers_of_perm (p : Point ℝ) : t'.covers p = t.covers p := by
  have hcorners : t'.HasCorners t.a.position t.b.position t.c.position :=
    horder.map VertexRecord.position
  have hsame : t'.interior = t.interior := hcorners.sense.1
  obtain ⟨ε, h, h'⟩ := ((eventually_covers hne p).and
    (eventually_covers (cross_ne_zero_of_perm hne horder) p)).exists
  rw [Bool.eq_iff_iff, h, h', hsame]

/-- Both are affine and agree at the vertices. -/
theorem curveAt_of_perm (p : Point ℝ) : t'.varying.curveAt p = t.varying.curveAt p := by
  have hvertex {r : VertexRecord ℝ} (hr : r ∈ [t.a, t.b, t.c]) :
      t'.varying.curveAt r.position = r.curve :=
    curveAt_position (cross_ne_zero_of_perm hne horder) (horder.mem_iff.mpr hr)
  obtain ⟨u, v, w, hsum, rfl⟩ := exists_weights hne p
  rw [curveAt_mean hne hsum, TriangleVarying.curveAt_weightedMean _ hsum, hvertex (by simp),
    hvertex (by simp), hvertex (by simp)]

end

/-! ## Colours -/

theorem fill_varying (t : Triangle ℝ) : t.varying.fill = t.a.fill.prepare := by
  unfold varying
  dsimp only
  split <;> rfl

theorem shade_of_covers {p : Point ℝ} (h : t.covers p = true) (ctx : FrameContext ℝ) :
    t.shade p ctx = if t.a.contentMask.clips p then Rgba.transparent
      else (t.a.fill.prepare.colorAt p t.a.bounds).fade (t.varying.curveCoverage p)
        ctx.premultipliedAlpha := by
  obtain ⟨edges, hedges, hcontains⟩ := (Option.any_eq_true ..).mp h
  rw [shade, project, evaluate]
  dsimp only
  rw [hedges]
  dsimp only
  rw [hcontains, fill_varying]
  rfl

/-- Whether all vertices of a triangle carry the same clip, bounds and fill. -/
def Uniform (t : Triangle ℝ) (contentMask bounds : Bounds ℝ) (fill : Fill ℝ) : Prop :=
  ∀ r ∈ [t.a, t.b, t.c], r.contentMask = contentMask ∧ r.bounds = bounds ∧ r.fill = fill

theorem Uniform.shade_eq {contentMask bounds : Bounds ℝ} {fill : Fill ℝ}
    (h : t.Uniform contentMask bounds fill) (p : Point ℝ) (ctx : FrameContext ℝ) :
    t.shade p ctx = if t.covers p then
        if contentMask.clips p then Rgba.transparent
        else (fill.prepare.colorAt p bounds).fade (t.varying.curveCoverage p)
          ctx.premultipliedAlpha
      else Rgba.transparent := by
  obtain ⟨hmask, hbounds, hfill⟩ := h t.a (by simp)
  split
  next hcovers => rw [shade_of_covers hcovers, hmask, hbounds, hfill]
  next hcovers => exact shade_of_not_covers (Bool.eq_false_iff.mpr hcovers) ctx

theorem shade_of_perm (hne : t.cross ≠ 0) (horder : [t'.a, t'.b, t'.c].Perm [t.a, t.b, t.c])
    {contentMask bounds : Bounds ℝ} {fill : Fill ℝ} (h : t.Uniform contentMask bounds fill)
    (p : Point ℝ) (ctx : FrameContext ℝ) : t'.shade p ctx = t.shade p ctx := by
  have h' : t'.Uniform contentMask bounds fill := fun r hr => h r (horder.mem_iff.mp hr)
  rw [h'.shade_eq, h.shade_eq, covers_of_perm hne horder,
    TriangleVarying.curveCoverage_congr (curveAt_of_perm hne horder)]

/-- A triangle with an area whose vertices share clip, bounds and fill is drawn the same in all
orders of its vertices. Every point is a mean of the vertices, and the position in curve space
there is the mean of theirs under the same weights; at a vertex it is the one that the vertex
carries. With the same position at all vertices, what the edges admit is covered in full. -/
theorem vertex_order_unseen (hne : t.cross ≠ 0) :
    (∀ (contentMask bounds : Bounds ℝ) (fill : Fill ℝ), t.Uniform contentMask bounds fill →
      ∀ t' : Triangle ℝ, [t'.a, t'.b, t'.c].Perm [t.a, t.b, t.c] →
        ∀ p ctx, t'.shade p ctx = t.shade p ctx)
      ∧ (∀ p, ∃ u v w : ℝ, u + v + w = 1
        ∧ p = weightedMean u v w t.a.position t.b.position t.c.position)
      ∧ (∀ u v w : ℝ, u + v + w = 1 →
        t.varying.curveAt (weightedMean u v w t.a.position t.b.position t.c.position)
          = weightedMean u v w t.a.curve t.b.curve t.c.curve)
      ∧ (∀ r ∈ [t.a, t.b, t.c], t.varying.curveAt r.position = r.curve)
      ∧ ∀ st : Point ℝ, (∀ r ∈ [t.a, t.b, t.c], r.curve = st) →
        ∀ p, t.covers p = true → t.varying.curveCoverage p = 1
          ∧ ∀ ctx : FrameContext ℝ, t.shade p ctx = if t.a.contentMask.clips p then Rgba.transparent
            else (t.a.fill.prepare.colorAt p t.a.bounds).fade 1 ctx.premultipliedAlpha := by
  refine ⟨fun _ _ _ h t' horder => shade_of_perm hne horder h, exists_weights hne,
    fun u v w => curveAt_mean hne, fun r => curveAt_position hne, ?_⟩
  intro st hcurve p hcovers
  have hfull : t.varying.curveCoverage p = 1 :=
    TriangleVarying.curveCoverage_of_constant (curveAt_of_constant hne hcurve) p
  exact ⟨hfull, fun ctx => by rw [shade_of_covers hcovers, hfull]⟩

/-- A curve read backwards, and a corner with straight sides. -/
theorem vertex_order_unseen_curved_and_straight :
    let vertex (p st : Point ℝ) : VertexRecord ℝ :=
      ⟨p, st, .of 0 0 4 4, .of 0 0 4 4, .solid ⟨0, 1, 0.5, 1⟩⟩
    let curved : Triangle ℝ :=
      ⟨vertex ⟨0, 0⟩ ⟨0, 0⟩, vertex ⟨4, 0⟩ ⟨1 / 2, 0⟩, vertex ⟨0, 4⟩ ⟨1, 1⟩⟩
    let reversed : Triangle ℝ := ⟨curved.c, curved.b, curved.a⟩
    let straight : Triangle ℝ :=
      ⟨vertex ⟨0, 0⟩ ⟨0, 1⟩, vertex ⟨4, 0⟩ ⟨0, 1⟩, vertex ⟨0, 4⟩ ⟨0, 1⟩⟩
    let ctx : FrameContext ℝ := ⟨⟨4, 4⟩, false, 4, false, none⟩
    curved.cross ≠ 0 ∧ reversed.shade ⟨1, 1⟩ ctx = curved.shade ⟨1, 1⟩ ctx
      ∧ curved.varying.curveAt ⟨1, 1⟩ = ⟨3 / 8, 1 / 4⟩
      ∧ curved.varying.curveAt ⟨4, 0⟩ = ⟨1 / 2, 0⟩
      ∧ straight.cross ≠ 0 ∧ straight.covers ⟨1, 1⟩ = true
      ∧ straight.varying.curveCoverage ⟨1, 1⟩ = 1 := by
  intro vertex curved reversed straight ctx
  have harea : orient ⟨0, 0⟩ ⟨4, 0⟩ ⟨0, 4⟩ = 16 := by norm_num [orient]
  have hcurved : curved.cross ≠ 0 := harea.trans_ne (by norm_num)
  have hstraight : straight.cross ≠ 0 := harea.trans_ne (by norm_num)
  have huniform : curved.Uniform (.of 0 0 4 4) (.of 0 0 4 4) (.solid ⟨0, 1, 0.5, 1⟩) := by
    simp [Uniform, curved, vertex]
  have hcovers : straight.covers ⟨1, 1⟩ = true := by
    have hsign : Scalar.sign straight.cross = 1 :=
      (congrArg Scalar.sign harea).trans (if_pos (by norm_num))
    rw [covers_iff hstraight, hsign]
    simp only [EdgeLine.admits_through, LexPositive, orient, straight, vertex]
    norm_num
  obtain ⟨horder, -, hmean, hvertex, -⟩ := vertex_order_unseen hcurved
  obtain ⟨-, -, -, -, hfull⟩ := vertex_order_unseen hstraight
  refine ⟨hcurved, horder _ _ _ huniform reversed (List.reverse_perm [_, _, _]) _ ctx, ?_,
    hvertex curved.b (by simp), hstraight, hcovers, ?_⟩
  · have hposition : weightedMean (1 / 2) (1 / 4) (1 / 4) curved.a.position curved.b.position
        curved.c.position = ⟨1, 1⟩ := by norm_num [weightedMean, curved, vertex]
    rw [← hposition, hmean _ _ _ (by norm_num)]
    norm_num [weightedMean, curved, vertex]
  · exact (hfull ⟨0, 1⟩ (by simp [straight, vertex]) _ hcovers).1

end Triangle

end Raster
