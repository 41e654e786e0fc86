import Raster.Scalar.Real
import Mathlib.Order.CompletePartialOrder
import Mathlib.Tactic.Linarith
import Mathlib.Tactic.FieldSimp
import Raster.Geometry.Basic

/-!
# Open triangles

The inside of a triangle without its sides: the means of the corners under
positive weights. `orient` is twice the signed area of three points, and a
point is inside exactly if it lies on the inner side of all three sides
(`mem_openTriangle_iff`).

A triangle that is cut at an inner point, or at a point of a side, falls
into open parts and the cuts between them: the parts lie inside the whole
(`openTriangle_subset`), no two of them meet (`disjoint_openTriangle`), and
a point of the whole that is on no cut is in one of them
(`mem_parts_of_inner`, `mem_parts_of_side`).
-/

namespace Raster

/-- Twice the signed area of a triangle; the sign tells on which side of the line through `a` and
`b` the point `c` lies. -/
def orient (a b c : Point ℝ) : ℝ := (b.x - a.x) * (c.y - a.y) - (b.y - a.y) * (c.x - a.x)

/-- The mean of three points under weights. -/
def weightedMean (u v w : ℝ) (a b c : Point ℝ) : Point ℝ :=
  ⟨u * a.x + v * b.x + w * c.x, u * a.y + v * b.y + w * c.y⟩

def openTriangle (a b c : Point ℝ) : Set (Point ℝ) :=
  {q | ∃ u v w, (0 < u ∧ 0 < v ∧ 0 < w) ∧ u + v + w = 1 ∧ q = weightedMean u v w a b c}

/-- The inside of a side: the points between two corners. -/
def openSide (a b : Point ℝ) : Set (Point ℝ) :=
  {q | ∃ u v, (0 < u ∧ 0 < v) ∧ u + v = 1 ∧ q = ⟨u * a.x + v * b.x, u * a.y + v * b.y⟩}

/-! ## Orders of the corners -/

theorem orient_swap (a b c : Point ℝ) : orient b a c = -orient a b c := by
  unfold orient
  ring

theorem orient_rotate (a b c : Point ℝ) : orient b c a = orient a b c := by
  unfold orient
  ring

theorem ne_of_orient_ne_zero {a b c : Point ℝ} (h : orient a b c ≠ 0) : a ≠ b := by
  rintro rfl
  exact h (by unfold orient; ring)

theorem weightedMean_rotate (u v w : ℝ) (a b c : Point ℝ) :
    weightedMean v w u b c a = weightedMean u v w a b c := by
  simp only [weightedMean, Point.mk.injEq]
  constructor <;> ring

theorem weightedMean_swap (u v w : ℝ) (a b c : Point ℝ) :
    weightedMean v u w b a c = weightedMean u v w a b c := by
  simp only [weightedMean, Point.mk.injEq]
  constructor <;> ring

theorem openTriangle_swap (a b c : Point ℝ) : openTriangle b a c = openTriangle a b c := by
  have hsub (a b c : Point ℝ) : openTriangle b a c ⊆ openTriangle a b c := by
    rintro q ⟨u, v, w, ⟨hu, hv, hw⟩, hsum, rfl⟩
    exact ⟨v, u, w, ⟨hv, hu, hw⟩, by linarith, weightedMean_swap ..⟩
  exact Set.Subset.antisymm (hsub a b c) (hsub b a c)

theorem openTriangle_rotate (a b c : Point ℝ) : openTriangle b c a = openTriangle a b c := by
  ext q
  constructor
  · rintro ⟨u, v, w, ⟨hu, hv, hw⟩, hsum, rfl⟩
    exact ⟨w, u, v, ⟨hw, hu, hv⟩, by linarith, weightedMean_rotate ..⟩
  · rintro ⟨u, v, w, ⟨hu, hv, hw⟩, hsum, rfl⟩
    exact ⟨v, w, u, ⟨hv, hw, hu⟩, by linarith, (weightedMean_rotate ..).symm⟩

theorem openSide_swap (a b : Point ℝ) : openSide b a = openSide a b := by
  have hsub (a b : Point ℝ) : openSide b a ⊆ openSide a b := by
    rintro q ⟨u, v, ⟨hu, hv⟩, hsum, rfl⟩
    exact ⟨v, u, ⟨hv, hu⟩, by linarith, by rw [add_comm (u * b.x), add_comm (u * b.y)]⟩
  exact Set.Subset.antisymm (hsub a b) (hsub b a)

/-! ## Inner sides -/

/-- The areas that a mean makes with the sides are in the ratio of the weights. -/
theorem orient_weightedMean {u v w : ℝ} (hsum : u + v + w = 1) (a b c : Point ℝ) :
    orient a b (weightedMean u v w a b c) = w * orient a b c
      ∧ orient b c (weightedMean u v w a b c) = u * orient a b c
      ∧ orient c a (weightedMean u v w a b c) = v * orient a b c := by
  obtain rfl : u = 1 - v - w := by linarith
  unfold orient weightedMean
  refine ⟨?_, ?_, ?_⟩ <;> ring

theorem orient_sum (a b c q : Point ℝ) :
    orient b c q + orient c a q + orient a b q = orient a b c := by
  unfold orient
  ring

/-- Every point is the mean of the corners under the areas that it makes with the sides. -/
theorem eq_weightedMean {a b c : Point ℝ} (h : orient a b c ≠ 0) (q : Point ℝ) :
    q = weightedMean (orient b c q / orient a b c) (orient c a q / orient a b c)
      (orient a b q / orient a b c) a b c := by
  obtain ⟨x, y⟩ := q
  simp only [weightedMean, Point.mk.injEq]
  constructor
  · field_simp
    unfold orient
    ring
  · field_simp
    unfold orient
    ring

theorem exists_eq_weightedMean {a b c : Point ℝ} (h : orient a b c ≠ 0) (q : Point ℝ) :
    ∃ u v w, u + v + w = 1 ∧ q = weightedMean u v w a b c := by
  refine ⟨_, _, _, ?_, eq_weightedMean h q⟩
  rw [← add_div, ← add_div, orient_sum, div_self h]

/-- A point is inside a triangle if it is on the inner side of each side; `o` carries the sign of
the triangle. -/
theorem mem_openTriangle_iff {a b c : Point ℝ} {o : ℝ} (ho : 0 < o * orient a b c)
    {q : Point ℝ} :
    q ∈ openTriangle a b c
      ↔ 0 < o * orient a b q ∧ 0 < o * orient b c q ∧ 0 < o * orient c a q := by
  constructor
  · rintro ⟨u, v, w, ⟨hu, hv, hw⟩, hsum, rfl⟩
    have hscale {x : ℝ} (hx : 0 < x) : 0 < o * (x * orient a b c) := by
      rw [mul_left_comm]
      exact mul_pos hx ho
    obtain ⟨hab, hbc, hca⟩ := orient_weightedMean hsum a b c
    rw [hab, hbc, hca]
    exact ⟨hscale hw, hscale hu, hscale hv⟩
  · rintro ⟨hab, hbc, hca⟩
    have hne : orient a b c ≠ 0 := fun h => by simp [h] at ho
    have hratio {x : ℝ} (hx : 0 < o * x) : 0 < x / orient a b c := by
      have ho' : o ≠ 0 := fun h => by simp [h] at ho
      rw [← mul_div_mul_left x _ ho']
      exact div_pos hx ho
    refine ⟨_, _, _, ⟨hratio hbc, hratio hca, hratio hab⟩, ?_, eq_weightedMean hne q⟩
    rw [← add_div, ← add_div, orient_sum, div_self hne]

/-! ## Parts of a triangle -/

theorem openTriangle_mean_subset {u v w : ℝ} (hu : 0 < u) (hv : 0 ≤ v) (hw : 0 ≤ w)
    (hsum : u + v + w = 1) (a b c : Point ℝ) :
    openTriangle (weightedMean u v w a b c) b c ⊆ openTriangle a b c := by
  rintro q ⟨s, t, r, ⟨hs, ht, hr⟩, hsum', rfl⟩
  refine ⟨s * u, s * v + t, s * w + r, ⟨by positivity, by positivity, by positivity⟩, ?_, ?_⟩
  · calc s * u + (s * v + t) + (s * w + r) = s * (u + v + w) + t + r := by ring
      _ = 1 := by rw [hsum, mul_one, hsum']
  · simp only [weightedMean, Point.mk.injEq]
    constructor <;> ring

/-- With one corner moved into the triangle, or along a side, a triangle becomes smaller. -/
theorem openTriangle_subset {a b c d : Point ℝ} (hd : d ∈ openTriangle a b c ∪ openSide a b) :
    openTriangle d b c ⊆ openTriangle a b c := by
  rcases hd with ⟨u, v, w, ⟨hu, hv, hw⟩, hsum, rfl⟩ | ⟨u, v, ⟨hu, hv⟩, hsum, rfl⟩
  · exact openTriangle_mean_subset hu hv.le hw.le hsum a b c
  · have hside : weightedMean u v 0 a b c = ⟨u * a.x + v * b.x, u * a.y + v * b.y⟩ := by
      simp [weightedMean]
    rw [← hside]
    exact openTriangle_mean_subset hu hv.le le_rfl (by linarith) a b c

/-- Triangles on different sides of a common side do not meet. -/
theorem disjoint_openTriangle {a b c d : Point ℝ} {o : ℝ} (hc : 0 < o * orient a b c)
    (hd : 0 < o * orient b a d) : Disjoint (openTriangle a b c) (openTriangle b a d) := by
  rw [Set.disjoint_left]
  intro q hq hq'
  have hinner := ((mem_openTriangle_iff hc).mp hq).1
  have houter := ((mem_openTriangle_iff hd).mp hq').1
  rw [orient_swap] at houter
  linarith

/-- The parts on either side of a cut from `d` to `c` do not meet. -/
theorem disjoint_parts {a b c d : Point ℝ} {o : ℝ} (hfirst : 0 < o * orient d b c)
    (hsecond : 0 < o * orient a d c) : Disjoint (openTriangle d b c) (openTriangle a d c) := by
  rw [← openTriangle_rotate d b c, ← openTriangle_rotate b c d, ← openTriangle_rotate a d c]
  refine disjoint_openTriangle (o := o) ?_ ?_
  · rwa [orient_rotate, orient_rotate]
  · rwa [orient_rotate]

/-! ## Cut at an inner point -/

/-- The parts have the sense of the whole. -/
theorem orient_parts_of_inner {a b c d : Point ℝ} {o : ℝ} (ho : 0 < o * orient a b c)
    (hd : d ∈ openTriangle a b c) :
    0 < o * orient d b c ∧ 0 < o * orient a d c ∧ 0 < o * orient a b d := by
  obtain ⟨hthird, hfirst, hsecond⟩ := (mem_openTriangle_iff ho).mp hd
  rw [orient_rotate d b c] at hfirst
  rw [orient_rotate d c a, orient_rotate a d c] at hsecond
  exact ⟨hfirst, hsecond, hthird⟩

theorem parts_of_inner_subset {a b c d : Point ℝ} (hd : d ∈ openTriangle a b c) :
    openTriangle d b c ⊆ openTriangle a b c ∧ openTriangle a d c ⊆ openTriangle a b c
      ∧ openTriangle a b d ⊆ openTriangle a b c := by
  refine ⟨openTriangle_subset (Or.inl hd), ?_, ?_⟩
  · rw [← openTriangle_rotate a b c] at hd ⊢
    rw [← openTriangle_rotate a d c]
    exact openTriangle_subset (Or.inl hd)
  · rw [← openTriangle_rotate a b c, ← openTriangle_rotate b c a] at hd ⊢
    rw [← openTriangle_rotate a b d, ← openTriangle_rotate b d a]
    exact openTriangle_subset (Or.inl hd)

theorem disjoint_parts_of_inner {a b c d : Point ℝ} {o : ℝ} (ho : 0 < o * orient a b c)
    (hd : d ∈ openTriangle a b c) :
    Disjoint (openTriangle d b c) (openTriangle a d c)
      ∧ Disjoint (openTriangle d b c) (openTriangle a b d)
      ∧ Disjoint (openTriangle a d c) (openTriangle a b d) := by
  obtain ⟨hdbc, hadc, habd⟩ := orient_parts_of_inner ho hd
  refine ⟨disjoint_parts hdbc hadc, ?_, ?_⟩
  · rw [openTriangle_rotate c d b, openTriangle_rotate d a b]
    rw [orient_rotate c d b] at hdbc
    rw [orient_rotate d a b] at habd
    exact (disjoint_parts habd hdbc).symm
  · rw [← openTriangle_rotate a d c, ← openTriangle_rotate a b d]
    rw [← orient_rotate a d c] at hadc
    rw [← orient_rotate a b d] at habd
    exact disjoint_parts hadc habd

/-- The areas that a point makes with the cuts from `d` balance under the weights of `d`. -/
theorem orient_cuts {u v w : ℝ} (hsum : u + v + w = 1) (a b c q : Point ℝ) :
    u * orient (weightedMean u v w a b c) a q + v * orient (weightedMean u v w a b c) b q
      + w * orient (weightedMean u v w a b c) c q = 0 := by
  obtain rfl : u = 1 - v - w := by linarith
  unfold orient weightedMean
  ring

/-- A point of a triangle that is on no cut from an inner point `d` to a corner is in one of the
three parts. -/
theorem mem_parts_of_inner {a b c d q : Point ℝ} {o : ℝ} (ho : 0 < o * orient a b c)
    (hd : d ∈ openTriangle a b c) (hq : q ∈ openTriangle a b c) (hda : o * orient d a q ≠ 0)
    (hdb : o * orient d b q ≠ 0) (hdc : o * orient d c q ≠ 0) :
    q ∈ openTriangle d b c ∨ q ∈ openTriangle a d c ∨ q ∈ openTriangle a b d := by
  obtain ⟨hab, hbc, hca⟩ := (mem_openTriangle_iff ho).mp hq
  obtain ⟨hfirst, hsecond, hthird⟩ := orient_parts_of_inner ho hd
  obtain ⟨u, v, w, ⟨hu, hv, hw⟩, hsum, rfl⟩ := hd
  have hcuts := orient_cuts hsum a b c q
  generalize weightedMean u v w a b c = d at *
  have hbalance : u * (o * orient d a q) + v * (o * orient d b q) + w * (o * orient d c q) = 0 := by
    linear_combination o * hcuts
  rw [mem_openTriangle_iff hfirst, mem_openTriangle_iff hsecond, mem_openTriangle_iff hthird,
    orient_swap d a, orient_swap d b, orient_swap d c]
  simp only [mul_neg, neg_pos]
  -- the point cannot be on the same side of all three cuts
  rcases lt_or_gt_of_ne hda with ha | ha
  · rcases lt_or_gt_of_ne hdc with hc | hc
    · have hb : 0 < v * (o * orient d b q) := by
        linarith [mul_neg_of_pos_of_neg hu ha, mul_neg_of_pos_of_neg hw hc]
      exact Or.inl ⟨(mul_pos_iff_of_pos_left hv).mp hb, hbc, hc⟩
    · exact Or.inr (Or.inl ⟨ha, hc, hca⟩)
  · rcases lt_or_gt_of_ne hdb with hb | hb
    · exact Or.inr (Or.inr ⟨hab, hb, ha⟩)
    · have hc : w * (o * orient d c q) < 0 := by
        linarith [mul_pos hu ha, mul_pos hv hb]
      exact Or.inl ⟨hb, hbc, neg_of_mul_neg_right hc hw.le⟩

/-! ## Cut at a point of a side -/

/-- A point of a side divides the areas over that side in the ratio of its weights. -/
theorem orient_of_mem_openSide {a b d : Point ℝ} (hd : d ∈ openSide a b) :
    ∃ u v : ℝ, (0 < u ∧ 0 < v)
      ∧ ∀ q, orient d b q = u * orient a b q ∧ orient a d q = v * orient a b q := by
  obtain ⟨u, v, hpos, hsum, rfl⟩ := hd
  refine ⟨u, v, hpos, fun q => ?_⟩
  obtain rfl : u = 1 - v := by linarith
  unfold orient
  constructor <;> ring

theorem orient_parts_of_side {a b c d : Point ℝ} {o : ℝ} (ho : 0 < o * orient a b c)
    (hd : d ∈ openSide a b) : 0 < o * orient d b c ∧ 0 < o * orient a d c := by
  obtain ⟨u, v, ⟨hu, hv⟩, hratio⟩ := orient_of_mem_openSide hd
  obtain ⟨hfirst, hsecond⟩ := hratio c
  rw [hfirst, hsecond, mul_left_comm, mul_left_comm o]
  exact ⟨mul_pos hu ho, mul_pos hv ho⟩

theorem parts_of_side_subset {a b c d : Point ℝ} (hd : d ∈ openSide a b) :
    openTriangle d b c ⊆ openTriangle a b c ∧ openTriangle a d c ⊆ openTriangle a b c := by
  refine ⟨openTriangle_subset (Or.inr hd), ?_⟩
  rw [openTriangle_swap d a, openTriangle_swap b a]
  rw [openSide_swap] at hd
  exact openTriangle_subset (Or.inr hd)

/-- A point of a triangle that is not on the cut from a point `d` of a side to the opposite corner
is in one of the two parts. -/
theorem mem_parts_of_side {a b c d q : Point ℝ} {o : ℝ} (ho : 0 < o * orient a b c)
    (hd : d ∈ openSide a b) (hq : q ∈ openTriangle a b c) (hdc : o * orient d c q ≠ 0) :
    q ∈ openTriangle d b c ∨ q ∈ openTriangle a d c := by
  obtain ⟨hab, hbc, hca⟩ := (mem_openTriangle_iff ho).mp hq
  obtain ⟨hfirst, hsecond⟩ := orient_parts_of_side ho hd
  obtain ⟨hdb, had⟩ := orient_parts_of_side hab hd
  rw [mem_openTriangle_iff hfirst, mem_openTriangle_iff hsecond, orient_swap d c]
  rcases lt_or_gt_of_ne hdc with hc | hc
  · exact Or.inl ⟨hdb, hbc, by linarith⟩
  · exact Or.inr ⟨had, hc, hca⟩

end Raster
