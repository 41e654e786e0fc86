import Raster.Scalar.Real
import Mathlib.Data.List.Permutation
import Raster.Primitive.Path
import Raster.Proofs.OpenTriangle

/-!
# The fill rule

A point on a side belongs to a triangle if the side is a top or a left one.
In exact arithmetic this is the same as to move the point a little to the
right, and by less than that down, and to ask whether it is inside
(`Triangle.eventually_covers`). A point that was moved is on no side of any
triangle in question, so nothing is left to be decided by rules.
-/

namespace Raster

open Filter Topology

/-- Whether a triangle has a point: it has an area, and each of its edges admits the point. -/
def Triangle.covers {α : Type} [Scalar α] (t : Triangle α) (p : Point α) : Bool :=
  t.varying.edges.any (·.contains p)

/-! ## Signs that a small step decides -/

/-- The first of three numbers that is not zero is positive. -/
def LexPositive (w x y : ℝ) : Prop := 0 < w ∨ w = 0 ∧ (0 < x ∨ x = 0 ∧ 0 < y)

theorem eventually_pos_of_pos {w : ℝ} (hw : 0 < w) (x y : ℝ) :
    ∀ᶠ ε in 𝓝[>] (0 : ℝ), 0 < w + x * ε + y * ε ^ 2 := by
  have hcontinuous : Continuous fun ε : ℝ => w + x * ε + y * ε ^ 2 := by fun_prop
  have hlimit := hcontinuous.tendsto' 0 w (by ring)
  exact (hlimit.eventually (lt_mem_nhds hw)).filter_mono nhdsWithin_le_nhds

theorem LexPositive.eventually_pos {w x y : ℝ} (h : LexPositive w x y) :
    ∀ᶠ ε in 𝓝[>] (0 : ℝ), 0 < w + x * ε + y * ε ^ 2 := by
  rcases h with hw | ⟨rfl, hx | ⟨rfl, hy⟩⟩
  · exact eventually_pos_of_pos hw x y
  · filter_upwards [eventually_pos_of_pos hx y 0, self_mem_nhdsWithin] with ε hlead hε
    calc 0 < ε * (x + y * ε + 0 * ε ^ 2) := mul_pos hε hlead
      _ = 0 + x * ε + y * ε ^ 2 := by ring
  · filter_upwards [self_mem_nhdsWithin] with ε hε
    calc 0 < y * ε ^ 2 := mul_pos hy (pow_pos hε 2)
      _ = 0 + 0 * ε + y * ε ^ 2 := by ring

/-- Three numbers, not all of them zero, are positive in this sense or their negations are. -/
theorem LexPositive.neg_of_not {w x y : ℝ} (hne : ¬ (x = 0 ∧ y = 0)) (h : ¬ LexPositive w x y) :
    LexPositive (-w) (-x) (-y) := by
  simp only [LexPositive, neg_pos, neg_eq_zero] at h ⊢
  rcases lt_trichotomy w 0 with hw | rfl | hw
  · exact Or.inl hw
  · rcases lt_trichotomy x 0 with hx | rfl | hx
    · exact Or.inr ⟨rfl, Or.inl hx⟩
    · rcases lt_trichotomy y 0 with hy | rfl | hy
      · exact Or.inr ⟨rfl, Or.inr ⟨rfl, hy⟩⟩
      · exact absurd ⟨rfl, rfl⟩ hne
      · exact absurd (Or.inr ⟨rfl, Or.inr ⟨rfl, hy⟩⟩) h
    · exact absurd (Or.inr ⟨rfl, Or.inl hx⟩) h
  · exact absurd (Or.inl hw) h

/-- A small step decides the sign, and the sign is that of the first number which is not zero. -/
theorem LexPositive.eventually_iff {w x y : ℝ} (hne : ¬ (x = 0 ∧ y = 0)) :
    ∀ᶠ ε in 𝓝[>] (0 : ℝ), (LexPositive w x y ↔ 0 < w + x * ε + y * ε ^ 2)
      ∧ w + x * ε + y * ε ^ 2 ≠ 0 := by
  by_cases h : LexPositive w x y
  · filter_upwards [h.eventually_pos] with ε hε
    exact ⟨iff_of_true h hε, hε.ne'⟩
  · filter_upwards [(neg_of_not hne h).eventually_pos] with ε hε
    have hnegative : w + x * ε + y * ε ^ 2 < 0 := by linarith
    exact ⟨iff_of_false h hnegative.not_gt, hnegative.ne⟩

/-! ## Edges -/

/-- A point moved to the right, and down by less. -/
def Point.nudge (p : Point ℝ) (ε : ℝ) : Point ℝ := ⟨p.x + ε, p.y + ε ^ 2⟩

theorem orient_nudge (a b p : Point ℝ) (o ε : ℝ) :
    o * orient a b (p.nudge ε)
      = o * orient a b p + -o * (b.y - a.y) * ε + o * (b.x - a.x) * ε ^ 2 := by
  unfold orient Point.nudge
  ring

theorem EdgeLine.admits_through (a b : Point ℝ) (o : ℝ) (p : Point ℝ) :
    (EdgeLine.through a b o).admits p = true
      ↔ LexPositive (o * orient a b p) (-o * (b.y - a.y)) (o * (b.x - a.x)) := by
  have harea : -o * (b.y - a.y) * (p.x - a.x) + o * (b.x - a.x) * (p.y - a.y)
      = o * orient a b p := by
    unfold orient
    ring
  simp only [admits, through, LexPositive, harea, Bool.or_eq_true, Bool.and_eq_true,
    decide_eq_true_iff]
  rw [Scalar.beq_iff_eq, Scalar.beq_iff_eq]

theorem EdgeLine.eventually_admits {a b : Point ℝ} {o : ℝ} (ho : o ≠ 0) (hab : a ≠ b)
    (p : Point ℝ) :
    ∀ᶠ ε in 𝓝[>] (0 : ℝ),
      ((EdgeLine.through a b o).admits p = true ↔ 0 < o * orient a b (p.nudge ε))
        ∧ o * orient a b (p.nudge ε) ≠ 0 := by
  have hne : ¬ (-o * (b.y - a.y) = 0 ∧ o * (b.x - a.x) = 0) := by
    rintro ⟨hy, hx⟩
    have hy := (mul_eq_zero.mp hy).resolve_left (neg_ne_zero.mpr ho)
    have hx := (mul_eq_zero.mp hx).resolve_left ho
    exact hab ((Point.mk.injEq ..).mpr ⟨(sub_eq_zero.mp hx).symm, (sub_eq_zero.mp hy).symm⟩)
  simp only [admits_through, orient_nudge]
  exact LexPositive.eventually_iff hne

/-! ## Triangles -/

theorem Scalar.sign_mul_pos {x : ℝ} (h : x ≠ 0) : 0 < Scalar.sign x * x := by
  show 0 < (if 0 < x then 1 else if x < 0 then -1 else 0) * x
  rcases lt_or_gt_of_ne h with hneg | hpos
  · rw [if_neg hneg.not_gt, if_pos hneg]
    linarith
  · rw [if_pos hpos, one_mul]
    exact hpos

namespace Triangle

def interior (t : Triangle ℝ) : Set (Point ℝ) :=
  openTriangle t.a.position t.b.position t.c.position

/-- The corners of a triangle, in some order. -/
def HasCorners (t : Triangle ℝ) (a b c : Point ℝ) : Prop :=
  [t.a.position, t.b.position, t.c.position].Perm [a, b, c]

theorem cross_eq_orient (t : Triangle ℝ) :
    t.cross = orient t.a.position t.b.position t.c.position := rfl

theorem covers_iff {t : Triangle ℝ} (h : t.cross ≠ 0) (p : Point ℝ) :
    t.covers p = true
      ↔ (EdgeLine.through t.a.position t.b.position (Scalar.sign t.cross)).admits p = true
        ∧ (EdgeLine.through t.b.position t.c.position (Scalar.sign t.cross)).admits p = true
        ∧ (EdgeLine.through t.c.position t.a.position (Scalar.sign t.cross)).admits p = true := by
  have hcross : ¬ (t.cross == 0) = true := fun hzero => h (Scalar.beq_iff_eq.mp hzero)
  rw [covers, varying, if_neg hcross]
  simp only [Option.any_some, EdgeLines.contains, EdgeLines.of, Bool.and_eq_true, and_assoc]

/-- A triangle has a point exactly if the point is inside after a small step. -/
theorem eventually_covers {t : Triangle ℝ} (h : t.cross ≠ 0) (p : Point ℝ) :
    ∀ᶠ ε in 𝓝[>] (0 : ℝ), t.covers p = true ↔ p.nudge ε ∈ t.interior := by
  have hsign := Scalar.sign_mul_pos h
  have ho : Scalar.sign t.cross ≠ 0 := fun hzero => by simp [hzero] at hsign
  have hab := ne_of_orient_ne_zero h
  have hbc := ne_of_orient_ne_zero ((orient_rotate ..).trans_ne h)
  have hca := ne_of_orient_ne_zero ((orient_rotate ..).trans_ne ((orient_rotate ..).trans_ne h))
  filter_upwards [EdgeLine.eventually_admits ho hab p, EdgeLine.eventually_admits ho hbc p,
    EdgeLine.eventually_admits ho hca p] with ε hadmitsAb hadmitsBc hadmitsCa
  rw [covers_iff h, hadmitsAb.1, hadmitsBc.1, hadmitsCa.1, interior, mem_openTriangle_iff hsign]

theorem HasCorners.sense {t : Triangle ℝ} {a b c : Point ℝ} (h : t.HasCorners a b c) :
    t.interior = openTriangle a b c ∧ (t.cross = orient a b c ∨ t.cross = -orient a b c) := by
  have horder := List.mem_permutations'.mpr h
  simp only [List.permutations', List.permutations'Aux, List.flatMap_cons, List.flatMap_nil,
    List.map_cons, List.map_nil, List.append_nil, List.cons_append, List.nil_append,
    List.mem_cons, List.not_mem_nil, or_false, List.cons.injEq, and_true] at horder
  rw [interior, cross_eq_orient]
  rcases horder with ⟨ha, hb, hc⟩ | ⟨ha, hb, hc⟩ | ⟨ha, hb, hc⟩ | ⟨ha, hb, hc⟩ | ⟨ha, hb, hc⟩
    | ⟨ha, hb, hc⟩ <;> rw [ha, hb, hc]
  · exact ⟨rfl, Or.inl rfl⟩
  · exact ⟨openTriangle_swap .., Or.inr (orient_swap ..)⟩
  · exact ⟨openTriangle_rotate .., Or.inl (orient_rotate ..)⟩
  · rw [openTriangle_swap c a b, ← openTriangle_rotate c a b, orient_swap c a b,
      ← orient_rotate c a b]
    exact ⟨rfl, Or.inr rfl⟩
  · exact ⟨(openTriangle_rotate ..).symm, Or.inl (orient_rotate ..).symm⟩
  · rw [openTriangle_swap b c a, openTriangle_rotate, orient_swap b c a, orient_rotate]
    exact ⟨rfl, Or.inr rfl⟩

theorem HasCorners.cross_ne_zero_iff {t : Triangle ℝ} {a b c : Point ℝ}
    (h : t.HasCorners a b c) : t.cross ≠ 0 ↔ orient a b c ≠ 0 := by
  rcases h.sense.2 with hcross | hcross
  · rw [hcross]
  · rw [hcross, neg_ne_zero]

/-- The ways to cut a triangle in parts: from an inner point to the corners, or from a point of a
side to the opposite corner. The parts may have their corners in any order. -/
inductive Split (t : Triangle ℝ) : List (Triangle ℝ) → Prop
  | inner {a b c d : Point ℝ} {t₁ t₂ t₃ : Triangle ℝ} : t.HasCorners a b c →
      d ∈ openTriangle a b c → t₁.HasCorners d b c → t₂.HasCorners a d c →
      t₃.HasCorners a b d → Split t [t₁, t₂, t₃]
  | side {a b c d : Point ℝ} {t₁ t₂ : Triangle ℝ} : t.HasCorners a b c → d ∈ openSide a b →
      t₁.HasCorners d b c → t₂.HasCorners a d c → Split t [t₁, t₂]

/-- The parts are triangles inside the whole, no two of them meet, and together they have all of
the whole except the cuts, which a moved point is not on. -/
structure Parts (t : Triangle ℝ) (parts : List (Triangle ℝ)) : Prop where
  cross_ne_zero : ∀ s ∈ parts, s.cross ≠ 0
  subset : ∀ s ∈ parts, s.interior ⊆ t.interior
  disjoint : parts.Pairwise fun s s' => Disjoint s.interior s'.interior
  cover (p : Point ℝ) : ∀ᶠ ε in 𝓝[>] (0 : ℝ), p.nudge ε ∈ t.interior →
    ∃ s ∈ parts, p.nudge ε ∈ s.interior

/-- A moved point is on no line through two points. -/
theorem eventually_orient_ne_zero {a b c : Point ℝ} {o : ℝ} (h : 0 < o * orient a b c)
    (p : Point ℝ) : ∀ᶠ ε in 𝓝[>] (0 : ℝ), o * orient a b (p.nudge ε) ≠ 0 := by
  obtain ⟨ho, horient⟩ := mul_ne_zero_iff.mp h.ne'
  have hab := ne_of_orient_ne_zero horient
  exact (EdgeLine.eventually_admits ho hab p).mono fun _ => And.right

theorem HasCorners.cross_ne_zero {t : Triangle ℝ} {a b c : Point ℝ} {o : ℝ}
    (h : t.HasCorners a b c) (ho : 0 < o * orient a b c) : t.cross ≠ 0 :=
  h.cross_ne_zero_iff.mpr (right_ne_zero_of_mul ho.ne')

theorem Split.parts {t : Triangle ℝ} {parts : List (Triangle ℝ)} (ht : t.cross ≠ 0)
    (h : t.Split parts) : t.Parts parts := by
  cases h with
  | @inner a b c d t₁ t₂ t₃ h hd h₁ h₂ h₃ =>
    have ho := Scalar.sign_mul_pos (h.cross_ne_zero_iff.mp ht)
    generalize Scalar.sign (orient a b c) = o at ho
    obtain ⟨hdbc, hadc, habd⟩ := orient_parts_of_inner ho hd
    obtain ⟨hsub₁, hsub₂, hsub₃⟩ := parts_of_inner_subset hd
    have hdca : 0 < o * orient d c a := by rwa [orient_rotate a d c]
    have hdab : 0 < o * orient d a b := by rwa [orient_rotate d a b] at habd
    constructor
    case cross_ne_zero =>
      simp only [List.forall_mem_cons]
      exact ⟨h₁.cross_ne_zero hdbc, h₂.cross_ne_zero hadc, h₃.cross_ne_zero habd, by simp⟩
    case subset =>
      simp only [List.forall_mem_cons, h.sense.1, h₁.sense.1, h₂.sense.1, h₃.sense.1]
      exact ⟨hsub₁, hsub₂, hsub₃, by simp⟩
    case disjoint =>
      obtain ⟨h₁₂, h₁₃, h₂₃⟩ := disjoint_parts_of_inner ho hd
      simp only [List.pairwise_cons, List.forall_mem_cons, h₁.sense.1, h₂.sense.1, h₃.sense.1]
      simp [h₁₂, h₁₃, h₂₃]
    case cover =>
      intro p
      filter_upwards [eventually_orient_ne_zero hdab p, eventually_orient_ne_zero hdbc p,
        eventually_orient_ne_zero hdca p] with ε hda hdb hdc hinside
      rw [h.sense.1] at hinside
      simp only [List.exists_mem_cons_iff, h₁.sense.1, h₂.sense.1, h₃.sense.1]
      rcases mem_parts_of_inner ho hd hinside hda hdb hdc with hq | hq | hq
      · exact Or.inl hq
      · exact Or.inr (Or.inl hq)
      · exact Or.inr (Or.inr (Or.inl hq))
  | @side a b c d t₁ t₂ h hd h₁ h₂ =>
    have ho := Scalar.sign_mul_pos (h.cross_ne_zero_iff.mp ht)
    generalize Scalar.sign (orient a b c) = o at ho
    obtain ⟨hdbc, hadc⟩ := orient_parts_of_side ho hd
    obtain ⟨hsub₁, hsub₂⟩ := parts_of_side_subset (c := c) hd
    have hdca : 0 < o * orient d c a := by rwa [orient_rotate a d c]
    constructor
    case cross_ne_zero =>
      simp only [List.forall_mem_cons]
      exact ⟨h₁.cross_ne_zero hdbc, h₂.cross_ne_zero hadc, by simp⟩
    case subset =>
      simp only [List.forall_mem_cons, h.sense.1, h₁.sense.1, h₂.sense.1]
      exact ⟨hsub₁, hsub₂, by simp⟩
    case disjoint =>
      rw [List.pairwise_pair, h₁.sense.1, h₂.sense.1]
      exact disjoint_parts hdbc hadc
    case cover =>
      intro p
      filter_upwards [eventually_orient_ne_zero hdca p] with ε hdc hinside
      rw [h.sense.1] at hinside
      simp only [List.exists_mem_cons_iff, h₁.sense.1, h₂.sense.1]
      rcases mem_parts_of_side ho hd hinside hdc with hq | hq
      · exact Or.inl hq
      · exact Or.inr (Or.inl hq)

theorem countP_covers {t : Triangle ℝ} {parts : List (Triangle ℝ)} {p : Point ℝ}
    (hpair : parts.Pairwise fun s s' => ¬ (s.covers p = true ∧ s'.covers p = true))
    (hwhole : t.covers p = parts.any (·.covers p)) :
    parts.countP (·.covers p) = if t.covers p then 1 else 0 := by
  rw [hwhole]
  clear hwhole
  induction parts with
  | nil => rfl
  | cons s parts ih =>
    obtain ⟨hhead, htail⟩ := List.pairwise_cons.mp hpair
    rw [List.countP_cons, ih htail, List.any_cons]
    cases hs : s.covers p with
    | false => rfl
    | true =>
      have hnone : parts.any (·.covers p) = false := by
        rw [List.any_eq_false]
        exact fun s' hs' hcovers => hhead s' hs' ⟨hs, hcovers⟩
      rw [hnone]
      rfl

theorem not_covers_both {t t' : Triangle ℝ} (h : t.cross ≠ 0) (h' : t'.cross ≠ 0)
    (hdisjoint : Disjoint t.interior t'.interior) (p : Point ℝ) :
    ¬ (t.covers p = true ∧ t'.covers p = true) := by
  rintro ⟨hcovers, hcovers'⟩
  obtain ⟨ε, hiff, hiff'⟩ := ((eventually_covers h p).and (eventually_covers h' p)).exists
  exact Set.disjoint_left.mp hdisjoint (hiff.mp hcovers) (hiff'.mp hcovers')

theorem Parts.covers_eq_any {t : Triangle ℝ} {parts : List (Triangle ℝ)} (ht : t.cross ≠ 0)
    (h : t.Parts parts) (p : Point ℝ) : t.covers p = parts.any (·.covers p) := by
  have hparts : ∀ᶠ ε in 𝓝[>] (0 : ℝ), ∀ s ∈ parts,
      s.covers p = true ↔ p.nudge ε ∈ s.interior := by
    refine (eventually_all_finite parts.finite_toSet).mpr fun s hs => ?_
    exact eventually_covers (h.cross_ne_zero s hs) p
  obtain ⟨ε, hwhole, hparts, hcover⟩ :=
    ((eventually_covers ht p).and (hparts.and (h.cover p))).exists
  rw [Bool.eq_iff_iff, List.any_eq_true, hwhole]
  constructor
  · intro hinside
    obtain ⟨s, hs, hinside⟩ := hcover hinside
    exact ⟨s, hs, (hparts s hs).mpr hinside⟩
  · rintro ⟨s, hs, hcovers⟩
    exact h.subset s hs ((hparts s hs).mp hcovers)

end Triangle

/-- The fill rule divides the plane: triangles that do not meet inside share no point, and a
triangle that is cut in parts hands each of its points to exactly one of them, and the parts have
no other points. -/
theorem fill_rule_partitions :
    (∀ t t' : Triangle ℝ, t.cross ≠ 0 → t'.cross ≠ 0 → Disjoint t.interior t'.interior →
      ∀ p, ¬ (t.covers p = true ∧ t'.covers p = true))
    ∧ ∀ (t : Triangle ℝ) (parts : List (Triangle ℝ)), t.cross ≠ 0 → t.Split parts →
      (∀ s ∈ parts, s.cross ≠ 0)
        ∧ ∀ p, parts.countP (·.covers p) = if t.covers p then 1 else 0 := by
  refine ⟨fun t t' => Triangle.not_covers_both, fun t parts ht hsplit => ?_⟩
  have hparts := hsplit.parts ht
  refine ⟨hparts.cross_ne_zero, fun p => ?_⟩
  refine Triangle.countP_covers ?_ (hparts.covers_eq_any ht p)
  refine hparts.disjoint.imp_of_mem fun hs hs' hdisjoint => ?_
  have hne := hparts.cross_ne_zero _ hs
  have hne' := hparts.cross_ne_zero _ hs'
  exact Triangle.not_covers_both hne hne' hdisjoint p

/-- A triangle with nothing but corners. -/
noncomputable def Triangle.ofCorners (a b c : Point ℝ) : Triangle ℝ :=
  { a := { (default : VertexRecord ℝ) with position := a }
    b := { (default : VertexRecord ℝ) with position := b }
    c := { (default : VertexRecord ℝ) with position := c } }

theorem Triangle.hasCorners_ofCorners (a b c : Point ℝ) : (ofCorners a b c).HasCorners a b c :=
  List.Perm.refl _

/-- Two halves of a square, of which one has the middle of the diagonal, and that half cut there;
the other half is cut inside. -/
theorem fill_rule_partitions_square :
    let lower := Triangle.ofCorners ⟨0, 0⟩ ⟨2, 0⟩ ⟨0, 2⟩
    let upper := Triangle.ofCorners ⟨2, 2⟩ ⟨0, 2⟩ ⟨2, 0⟩
    let quarters := [Triangle.ofCorners ⟨1, 1⟩ ⟨0, 2⟩ ⟨2, 2⟩, .ofCorners ⟨2, 2⟩ ⟨1, 1⟩ ⟨2, 0⟩]
    let thirds := [Triangle.ofCorners ⟨1 / 2, 1 / 2⟩ ⟨2, 0⟩ ⟨0, 2⟩,
      .ofCorners ⟨0, 0⟩ ⟨1 / 2, 1 / 2⟩ ⟨0, 2⟩, .ofCorners ⟨0, 0⟩ ⟨2, 0⟩ ⟨1 / 2, 1 / 2⟩]
    ¬ (lower.covers ⟨1, 1⟩ = true ∧ upper.covers ⟨1, 1⟩ = true)
      ∧ upper.covers ⟨1, 1⟩ = true ∧ quarters.countP (·.covers ⟨1, 1⟩) = 1
      ∧ lower.covers ⟨1 / 2, 1 / 2⟩ = true ∧ thirds.countP (·.covers ⟨1 / 2, 1 / 2⟩) = 1 := by
  intro lower upper quarters thirds
  have hlower : lower.cross = 4 := by
    norm_num [lower, Triangle.cross_eq_orient, Triangle.ofCorners, orient]
  have hupper : upper.cross = 4 := by
    norm_num [upper, Triangle.cross_eq_orient, Triangle.ofCorners, orient]
  have hlower_ne : lower.cross ≠ 0 := by norm_num [hlower]
  have hupper_ne : upper.cross ≠ 0 := by norm_num [hupper]
  have hsign : Scalar.sign (4 : ℝ) = 1 := if_pos (by norm_num)
  have hdisjoint : Disjoint lower.interior upper.interior := by
    show Disjoint (openTriangle ⟨0, 0⟩ ⟨2, 0⟩ ⟨0, 2⟩) (openTriangle ⟨2, 2⟩ ⟨0, 2⟩ ⟨2, 0⟩)
    rw [← openTriangle_rotate ⟨0, 0⟩ ⟨2, 0⟩ ⟨0, 2⟩, ← openTriangle_rotate ⟨2, 2⟩ ⟨0, 2⟩ ⟨2, 0⟩]
    refine disjoint_openTriangle (o := 1) ?_ ?_ <;> norm_num [orient]
  have hquarters : upper.Split quarters := by
    refine .side (a := ⟨2, 0⟩) (b := ⟨0, 2⟩) (c := ⟨2, 2⟩) (d := ⟨1, 1⟩) ?_ ?_ ?_ ?_
    · exact List.reverse_perm [_, _, _]
    · exact ⟨1 / 2, 1 / 2, by norm_num, by norm_num, by norm_num⟩
    · exact Triangle.hasCorners_ofCorners ..
    · exact List.reverse_perm [_, _, _]
  have hthirds : lower.Split thirds := by
    refine .inner (a := ⟨0, 0⟩) (b := ⟨2, 0⟩) (c := ⟨0, 2⟩) (d := ⟨1 / 2, 1 / 2⟩)
      (Triangle.hasCorners_ofCorners ..) ?_ (Triangle.hasCorners_ofCorners ..)
      (Triangle.hasCorners_ofCorners ..) (Triangle.hasCorners_ofCorners ..)
    exact ⟨1 / 2, 1 / 4, 1 / 4, by norm_num, by norm_num, by norm_num [weightedMean]⟩
  have hmiddle : upper.covers ⟨1, 1⟩ = true := by
    rw [Triangle.covers_iff hupper_ne, hupper, hsign]
    simp only [EdgeLine.admits_through, LexPositive, orient, upper, Triangle.ofCorners]
    norm_num
  have hcenter : lower.covers ⟨1 / 2, 1 / 2⟩ = true := by
    rw [Triangle.covers_iff hlower_ne, hlower, hsign]
    simp only [EdgeLine.admits_through, LexPositive, orient, lower, Triangle.ofCorners]
    norm_num
  obtain ⟨hapart, hcut⟩ := fill_rule_partitions
  refine ⟨hapart _ _ hlower_ne hupper_ne hdisjoint _, hmiddle, ?_, hcenter, ?_⟩
  · rw [(hcut _ _ hupper_ne hquarters).2, if_pos hmiddle]
  · rw [(hcut _ _ hlower_ne hthirds).2, if_pos hcenter]

end Raster
