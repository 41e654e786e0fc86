import Mathlib.Analysis.SpecialFunctions.Pow.Real
import Mathlib.Analysis.SpecialFunctions.Trigonometric.Basic
import Raster.Scalar

/-!
# Exact arithmetic

The real numbers as scalars. Nothing is rounded, neither by an operation
nor by a write to a buffer, so what the library does over the reals is what
it would do in exact arithmetic.

Integers among the reals are recognised: `Scalar.toInt?_intCast`. Clamping
stays in the interval from 0 to 1 (`saturate_mem`), interpolation in every
interval that has both ends (`lerp_mem`).
-/

namespace Raster

/-- The integer part, rounded toward zero. -/
noncomputable def truncate (x : ℝ) : ℤ := if 0 ≤ x then ⌊x⌋ else ⌈x⌉

noncomputable instance : Scalar ℝ where
  literal
    | 0 => inferInstance
    | 1 => inferInstance
    | _ + 2 => inferInstance
  ofNat n := n
  decidableLT := inferInstance
  decidableLE := inferInstance
  beq x y := decide (x = y)
  toInt := truncate
  abs x := |x|
  floor x := ⌊x⌋
  ceil x := ⌈x⌉
  sign x := if 0 < x then 1 else if x < 0 then -1 else 0
  rem x y := x - y * truncate (x / y)
  sqrt := Real.sqrt
  cbrt x := if 0 ≤ x then x ^ (1 / 3 : ℝ) else -((-x) ^ (1 / 3 : ℝ))
  exp := Real.exp
  sin := Real.sin
  cos := Real.cos
  pow x y := x ^ y
  hypot x y := Real.sqrt (x * x + y * y)
  pi := Real.pi
  store x := x

namespace Scalar

theorem beq_iff_eq {x y : ℝ} : (x == y) = true ↔ x = y := decide_eq_true_iff

theorem ofInt_eq_intCast (n : ℤ) : (ofInt n : ℝ) = n := by
  cases n with
  | ofNat n => exact (Int.cast_natCast n).symm
  | negSucc n => exact (Int.cast_negSucc n).symm

theorem toInt_intCast (n : ℤ) : toInt (n : ℝ) = n := by
  show truncate n = n
  unfold truncate
  split
  · exact Int.floor_intCast n
  · exact Int.ceil_intCast n

theorem toInt?_intCast (n : ℤ) : toInt? (n : ℝ) = some n := by
  unfold toInt?
  rw [toInt_intCast, ofInt_eq_intCast]
  exact if_pos (decide_eq_true rfl)

theorem ofNat_eq_natCast (n : ℕ) : (ofNat n : ℝ) = n := rfl

theorem toInt_natCast (n : ℕ) : toInt (n : ℝ) = n := by
  rw [← Int.cast_natCast, toInt_intCast]

end Scalar

/-! ## Clamping and interpolation -/

theorem saturate_eq_self {x : ℝ} (hlow : 0 ≤ x) (hhigh : x ≤ 1) : saturate x = x := by
  unfold saturate
  split_ifs with hpositive hlarge
  · exact le_antisymm hlarge.le hhigh
  · rfl
  · exact le_antisymm hlow (not_lt.mp hpositive)

theorem saturate_of_nonpos {x : ℝ} (h : x ≤ 0) : saturate x = 0 := if_neg (not_lt.mpr h)

theorem saturate_mem (x : ℝ) : saturate x ∈ Set.Icc (0 : ℝ) 1 := by
  unfold saturate
  split_ifs with hpositive hlarge
  · exact ⟨zero_le_one, le_refl 1⟩
  · exact ⟨hpositive.le, not_lt.mp hlarge⟩
  · exact ⟨le_refl 0, zero_le_one⟩

theorem saturate_pos_iff {x : ℝ} : 0 < saturate x ↔ 0 < x := by
  unfold saturate
  split_ifs with hpositive hlarge
  · exact iff_of_true zero_lt_one hpositive
  · exact Iff.rfl
  · exact iff_of_false (lt_irrefl 0) hpositive

theorem saturate_eq_one_iff {x : ℝ} : saturate x = 1 ↔ 1 ≤ x := by
  unfold saturate
  split_ifs with hpositive hlarge
  · exact ⟨fun _ => hlarge.le, fun _ => rfl⟩
  · exact ⟨fun h => h.ge, fun h => le_antisymm (not_lt.mp hlarge) h⟩
  · exact ⟨fun h => absurd h zero_ne_one, fun h => absurd (zero_lt_one.trans_le h) hpositive⟩

theorem lerp_zero (a b : ℝ) : lerp a b 0 = a := by
  show a + (b - a) * 0 = a
  ring

theorem lerp_self (a t : ℝ) : lerp a a t = a := by
  show a + (a - a) * t = a
  ring

/-- Between two numbers of an interval there are no others. -/
theorem lerp_mem {a b t low high : ℝ} (ha : a ∈ Set.Icc low high) (hb : b ∈ Set.Icc low high)
    (ht : t ∈ Set.Icc (0 : ℝ) 1) : lerp a b t ∈ Set.Icc low high := by
  have hrest : 0 ≤ 1 - t := sub_nonneg.mpr ht.2
  have hmean : lerp a b t = a * (1 - t) + b * t := by
    show a + (b - a) * t = _
    ring
  rw [hmean]
  constructor
  · calc low = low * (1 - t) + low * t := by ring
      _ ≤ a * (1 - t) + b * t :=
          add_le_add (mul_le_mul_of_nonneg_right ha.1 hrest)
            (mul_le_mul_of_nonneg_right hb.1 ht.1)
  · calc a * (1 - t) + b * t ≤ high * (1 - t) + high * t :=
          add_le_add (mul_le_mul_of_nonneg_right ha.2 hrest)
            (mul_le_mul_of_nonneg_right hb.2 ht.1)
      _ = high := by ring

end Raster
