import Raster.Proofs.ShadowBlur
import Raster.Proofs.ShadowSamples

/-!
# Shadows are symmetric

A shadow whose corners have one radius covers a point as much as its mirror
images in the two centre lines of the bounds (`Shadow.coverage_mirror`). From
left to right each sample of a blur has the same value, as the error function
is odd. From top to bottom the window is mirrored, and the samples come in
reverse order (`Shadow.sampleHeight_mirrorTopBottom`).

Bounds of negative height are no exception: their window is empty wherever
the point is (`Shadow.sampleStep_of_height_neg`). And nothing is used of the
exponential and the square root, which may be any functions.
-/

namespace Raster

namespace Bounds

/-- The image of a point in the vertical centre line. -/
noncomputable def mirrorLeftRight (b : Bounds ℝ) (p : Point ℝ) : Point ℝ :=
  ⟨2 * b.center.x - p.x, p.y⟩

/-- The image of a point in the horizontal centre line. -/
noncomputable def mirrorTopBottom (b : Bounds ℝ) (p : Point ℝ) : Point ℝ :=
  ⟨p.x, 2 * b.center.y - p.y⟩

theorem sub_center_mirrorLeftRight (b : Bounds ℝ) (p : Point ℝ) :
    (b.mirrorLeftRight p).sub b.center = ⟨-(p.sub b.center).x, (p.sub b.center).y⟩ := by
  simp only [Point.sub, mirrorLeftRight, Point.mk.injEq, and_true]
  ring

theorem sub_center_mirrorTopBottom (b : Bounds ℝ) (p : Point ℝ) :
    (b.mirrorTopBottom p).sub b.center = ⟨(p.sub b.center).x, -(p.sub b.center).y⟩ := by
  simp only [Point.sub, mirrorTopBottom, Point.mk.injEq, true_and]
  ring

theorem beyondCorner_neg_x (b : Bounds ℝ) (v : Point ℝ) :
    b.beyondCorner ⟨-v.x, v.y⟩ = b.beyondCorner v :=
  congrArg (fun reach => Point.mk (reach - b.size.width / 2) _) (abs_neg v.x)

theorem beyondCorner_neg_y (b : Bounds ℝ) (v : Point ℝ) :
    b.beyondCorner ⟨v.x, -v.y⟩ = b.beyondCorner v :=
  congrArg (fun reach => Point.mk _ (reach - b.size.height / 2)) (abs_neg v.y)

section
variable {radii : Corners ℝ} {radius : ℝ} (hradii : radii = ⟨radius, radius, radius, radius⟩)
include hradii

theorem roundedDistance_mirrorLeftRight (b : Bounds ℝ) (p : Point ℝ) :
    b.roundedDistance radii (b.mirrorLeftRight p) = b.roundedDistance radii p := by
  unfold roundedDistance
  simp only [sub_center_mirrorLeftRight, beyondCorner_neg_x, Corners.radiusAt_of_eq hradii]

theorem roundedDistance_mirrorTopBottom (b : Bounds ℝ) (p : Point ℝ) :
    b.roundedDistance radii (b.mirrorTopBottom p) = b.roundedDistance radii p := by
  unfold roundedDistance
  simp only [sub_center_mirrorTopBottom, beyondCorner_neg_y, Corners.radiusAt_of_eq hradii]

end

end Bounds

/-! ## Rows -/

theorem blurBetween_neg (half scale x : ℝ) :
    blurBetween half scale (-x) = blurBetween half scale x := by
  have hright : erf ((-x + half) * scale) = -erf ((x - half) * scale) := by
    rw [← erf_neg]
    congr 1
    ring
  have hleft : erf ((-x - half) * scale) = -erf ((x + half) * scale) := by
    rw [← erf_neg]
    congr 1
    ring
  rw [blurBetween, blurBetween, hright, hleft]
  ring

section
variable (exp sqrt : ℝ → ℝ)

theorem blurredRow_neg_x (x y sigma radius halfWidth halfHeight : ℝ) :
    @blurredRow ℝ (.exactWith exp sqrt) (-x) y sigma radius halfWidth halfHeight
      = @blurredRow ℝ (.exactWith exp sqrt) x y sigma radius halfWidth halfHeight := by
  rw [blurredRow_eq, blurredRow_eq, blurBetween_neg]

theorem blurredRow_neg_y (x y sigma radius halfWidth halfHeight : ℝ) :
    @blurredRow ℝ (.exactWith exp sqrt) x (-y) sigma radius halfWidth halfHeight
      = @blurredRow ℝ (.exactWith exp sqrt) x y sigma radius halfWidth halfHeight := by
  have hhalf : @rowHalfWidth ℝ (.exactWith exp sqrt) (-y) radius halfWidth halfHeight
      = @rowHalfWidth ℝ (.exactWith exp sqrt) y radius halfWidth halfHeight := by
    show halfWidth - radius + sqrt (max 0 (radius * radius
        - min (halfHeight - radius - |-y|) 0 * min (halfHeight - radius - |-y|) 0)) = _
    rw [abs_neg]
    rfl
  unfold blurredRow
  rw [hhalf]

theorem gaussian_neg (y sigma : ℝ) : @gaussian ℝ (.exactWith exp sqrt) (-y) sigma
    = @gaussian ℝ (.exactWith exp sqrt) y sigma := by
  show exp (-(-y * -y) / (2 * sigma * sigma)) / _ = _
  rw [neg_mul_neg]
  rfl

end

namespace Shadow

variable {s : Shadow ℝ}

/-! ## The window -/

/-- Clamping a mirrored number between mirrored ends. -/
theorem clamp_neg {low high : ℝ} (h : low ≤ high) (y : ℝ) :
    min (max (-y) (-high)) (-low) = -min (max y low) high := by
  calc min (max (-y) (-high)) (-low) = max (min (-y) (-low)) (min (-high) (-low)) :=
        min_max_distrib_right ..
    _ = max (-max y low) (-high) := by rw [min_neg_neg, min_eq_left (neg_le_neg h)]
    _ = -min (max y low) high := max_neg_neg ..

/-- If the shape is not upside down, the window of the mirrored point is mirrored. -/
theorem clampToShape_mirrorTopBottom (hheight : 0 ≤ s.bounds.size.height) (p : Point ℝ) (y : ℝ) :
    s.clampToShape (s.bounds.mirrorTopBottom p) (-y) = -s.clampToShape p y := by
  have hends : (p.sub s.bounds.center).y - s.bounds.size.height / 2
      ≤ (p.sub s.bounds.center).y + s.bounds.size.height / 2 := by linarith
  rw [clampToShape, clampToShape, ← clamp_neg hends, Bounds.sub_center_mirrorTopBottom]
  dsimp only
  rw [neg_add', neg_sub', sub_neg_eq_add]

/-- Upside down, the shape meets no window. -/
theorem sampleStep_of_height_neg (hheight : s.bounds.size.height < 0) (p : Point ℝ) (n : ℕ) :
    s.sampleStep p n = 0 := by
  have hends (y : ℝ) :
      s.clampToShape p y = (p.sub s.bounds.center).y + s.bounds.size.height / 2 := by
    refine min_eq_right (le_trans ?_ (le_max_right ..))
    linarith
  rw [sampleStep, windowStart, windowStop, hends, hends, sub_self, zero_div]

section
variable (hheight : 0 ≤ s.bounds.size.height) (p : Point ℝ)
include hheight

theorem windowStart_mirrorTopBottom :
    s.windowStart (s.bounds.mirrorTopBottom p) = -s.windowStop p := by
  rw [windowStart, neg_mul, clampToShape_mirrorTopBottom hheight, windowStop]

theorem windowStop_mirrorTopBottom :
    s.windowStop (s.bounds.mirrorTopBottom p) = -s.windowStart p := by
  rw [windowStart, neg_mul, ← clampToShape_mirrorTopBottom hheight, neg_neg, windowStop]

theorem sampleStep_mirrorTopBottom (n : ℕ) :
    s.sampleStep (s.bounds.mirrorTopBottom p) n = s.sampleStep p n := by
  rw [sampleStep, sampleStep, windowStart_mirrorTopBottom hheight,
    windowStop_mirrorTopBottom hheight, neg_sub_neg]

/-- The samples are mirrored, and come in reverse order. -/
theorem sampleHeight_mirrorTopBottom {n i : ℕ} (hi : i < n) :
    s.sampleHeight (s.bounds.mirrorTopBottom p) n i = -s.sampleHeight p n (n - 1 - i) := by
  have hn : (n : ℝ) ≠ 0 := by exact_mod_cast (Nat.zero_lt_of_lt hi).ne'
  have hlast : s.windowStop p = s.windowStart p + n * s.sampleStep p n := by
    rw [sampleStep, mul_div_cancel₀ _ hn]
    ring
  have hcount : ((n - 1 - i : ℕ) : ℝ) = n - 1 - i := by
    rw [Nat.sub_sub, Nat.cast_sub (by omega)]
    push_cast
    ring
  rw [sampleHeight, sampleHeight, windowStart_mirrorTopBottom hheight,
    sampleStep_mirrorTopBottom hheight, hlast, hcount]
  ring

end

/-! ## The samples -/

theorem clampToShape_mirrorLeftRight (p : Point ℝ) (y : ℝ) :
    s.clampToShape (s.bounds.mirrorLeftRight p) y = s.clampToShape p y := by
  rw [clampToShape, clampToShape, Bounds.sub_center_mirrorLeftRight]

theorem sampleStep_mirrorLeftRight (p : Point ℝ) (n : ℕ) :
    s.sampleStep (s.bounds.mirrorLeftRight p) n = s.sampleStep p n := by
  simp only [sampleStep, windowStart, windowStop, clampToShape_mirrorLeftRight]

theorem sampleHeight_mirrorLeftRight (p : Point ℝ) (n i : ℕ) :
    s.sampleHeight (s.bounds.mirrorLeftRight p) n i = s.sampleHeight p n i := by
  rw [sampleHeight, sampleHeight, sampleStep_mirrorLeftRight, windowStart, windowStart,
    clampToShape_mirrorLeftRight]

section
variable (exp sqrt : ℝ → ℝ) {radius : ℝ}
  (hradii : s.cornerRadii = ⟨radius, radius, radius, radius⟩) (p : Point ℝ) (y : ℝ)
include hradii

theorem sampleWith_mirrorLeftRight :
    s.sampleWith (s.bounds.mirrorLeftRight p) exp sqrt y = s.sampleWith p exp sqrt y := by
  simp only [sampleWith, rowWith, Bounds.sub_center_mirrorLeftRight,
    Corners.radiusAt_of_eq hradii, blurredRow_neg_x]

theorem sampleWith_mirrorTopBottom :
    s.sampleWith (s.bounds.mirrorTopBottom p) exp sqrt (-y) = s.sampleWith p exp sqrt y := by
  simp only [sampleWith, rowWith, Bounds.sub_center_mirrorTopBottom,
    Corners.radiusAt_of_eq hradii, ← neg_sub', blurredRow_neg_y, gaussian_neg]

end

/-! ## Coverage -/

/-- A shadow whose corners have one radius is symmetric about both centre lines of its bounds, with
a blur or without one, whatever functions stand for the exponential and the square root. -/
theorem coverage_mirror (exp sqrt : ℝ → ℝ) {radius : ℝ}
    (hradii : s.cornerRadii = ⟨radius, radius, radius, radius⟩) (p : Point ℝ) (n : ℕ) :
    @coverage ℝ (.exactWith exp sqrt) s (s.bounds.mirrorLeftRight p) n
        = @coverage ℝ (.exactWith exp sqrt) s p n
      ∧ @coverage ℝ (.exactWith exp sqrt) s (s.bounds.mirrorTopBottom p) n
        = @coverage ℝ (.exactWith exp sqrt) s p n := by
  rcases lt_or_ge s.blurRadius minBlurRadius with hsharp | hblur
  · have hplain (q : Point ℝ) : @coverage ℝ (.exactWith exp sqrt) s q n
        = saturate (0.5 - s.bounds.roundedDistance s.cornerRadii q) := if_pos hsharp
    rw [hplain, hplain, hplain, s.bounds.roundedDistance_mirrorLeftRight hradii,
      s.bounds.roundedDistance_mirrorTopBottom hradii]
    exact ⟨rfl, rfl⟩
  · simp only [s.coverage_eq_sum_with _ exp sqrt hblur]
    constructor
    · simp only [sampleHeight_mirrorLeftRight, sampleStep_mirrorLeftRight,
        s.sampleWith_mirrorLeftRight exp sqrt hradii]
    rcases lt_or_ge s.bounds.size.height 0 with hheight | hheight
    · simp only [sampleStep_of_height_neg hheight, mul_zero]
    · rw [← Finset.sum_range_reflect]
      refine Finset.sum_congr rfl fun i hi => ?_
      have hlast : n - 1 - (n - 1 - i) = i := by
        have := Finset.mem_range.mp hi
        omega
      have hreverse : n - 1 - i < n := by
        have := Finset.mem_range.mp hi
        omega
      rw [sampleHeight_mirrorTopBottom hheight p hreverse, hlast,
        sampleStep_mirrorTopBottom hheight, s.sampleWith_mirrorTopBottom exp sqrt hradii]

/-- A rounded shadow, sampled five times beside its top left corner and at the mirror images. -/
theorem coverage_mirror_five_samples :
    let s : Shadow ℝ := ⟨⟨0, .of 0 0 40 40, .of 10 10 20 12⟩, ⟨6, 6, 6, 6⟩, 3, ⟨0, 0, 0, 1⟩⟩
    s.cornerRadii = ⟨6, 6, 6, 6⟩
      ∧ s.coverage ⟨26, 9⟩ (5 : ℕ) = s.coverage ⟨14, 9⟩ (5 : ℕ)
      ∧ s.coverage ⟨14, 23⟩ (5 : ℕ) = s.coverage ⟨14, 9⟩ (5 : ℕ) := by
  intro s
  have hleftRight : s.bounds.mirrorLeftRight ⟨14, 9⟩ = ⟨26, 9⟩ := by
    norm_num [s, Bounds.mirrorLeftRight, Bounds.center, Bounds.of]
  have htopBottom : s.bounds.mirrorTopBottom ⟨14, 9⟩ = ⟨14, 23⟩ := by
    norm_num [s, Bounds.mirrorTopBottom, Bounds.center, Bounds.of]
  have hradii : s.cornerRadii = ⟨6, 6, 6, 6⟩ := rfl
  obtain ⟨hright, hbottom⟩ := coverage_mirror Real.exp Real.sqrt hradii ⟨14, 9⟩ 5
  rw [hleftRight] at hright
  rw [htopBottom] at hbottom
  exact ⟨hradii, hright, hbottom⟩

end Shadow

end Raster
