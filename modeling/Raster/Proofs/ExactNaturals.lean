import Raster.Scalar.Real
import Raster.Memory

/-!
# Natural numbers among the scalars

Lengths and places in buffers are worked out as scalars. That is harmless
where sums and products of natural numbers come out as they are and
comparison tells such numbers apart: below a bound, which binary floating
point has and exact arithmetic has not (`Scalar.ExactBelow`,
`Scalar.exactBelow_real`). There the integer part gives natural numbers
back, and a buffer has the length that is asked for
(`Scalar.ExactBelow.bufferLength`).
-/

namespace Raster

namespace Scalar

/-- Natural numbers below a bound are worked out without rounding. -/
structure ExactBelow (α : Type) [Scalar α] (bound : Nat) : Prop where
  literal (n : Nat) : (OfNat.ofNat n : α) = ofNat n
  add {a b : Nat} : a + b < bound → (ofNat a + ofNat b : α) = ofNat (a + b)
  mul {a b : Nat} : a < bound → b < bound → a * b < bound →
    (ofNat a * ofNat b : α) = ofNat (a * b)
  toInt {n : Nat} : n < bound → toInt (ofNat n : α) = n
  beq {a b : Nat} : a < bound → b < bound → ((ofNat a : α) == ofNat b) = decide (a = b)
  lt {a b : Nat} : a < bound → b < bound → ((ofNat a : α) < ofNat b ↔ a < b)
  /-- The bound itself is above all of them. -/
  le {a b : Nat} : a ≤ bound → b < bound → ((ofNat a : α) ≤ ofNat b ↔ a ≤ b)
  not_le_neg_one {n : Nat} : n < bound → ¬ (ofNat n : α) ≤ -1

theorem exactBelow_real (bound : ℕ) : ExactBelow ℝ bound where
  literal
    | 0 => Nat.cast_zero.symm
    | 1 => Nat.cast_one.symm
    | n + 2 => (Nat.cast_ofNat (n := n + 2)).symm
  add {a b} _ := (Nat.cast_add a b).symm
  mul {a b} _ _ _ := (Nat.cast_mul a b).symm
  toInt {n} _ := toInt_natCast n
  beq _ _ := decide_eq_decide.mpr Nat.cast_inj
  lt _ _ := Nat.cast_lt
  le _ _ := Nat.cast_le
  not_le_neg_one {n} _ := by
    have hpositive : (0 : ℝ) ≤ n := Nat.cast_nonneg n
    show ¬ (n : ℝ) ≤ -1
    linarith

namespace ExactBelow

variable {α : Type} [Scalar α] {bound : Nat} (h : ExactBelow α bound)
include h

theorem toInt? {n : Nat} (hn : n < bound) : toInt? (ofNat n : α) = some (n : Int) := by
  have hsame : (ofInt (n : Int) == (ofNat n : α)) = true :=
    (h.beq hn hn).trans (decide_eq_true rfl)
  rw [Scalar.toInt?, h.toInt hn, if_pos hsame]

theorem natCeil? {n : Nat} (hn : n < bound) : natCeil? (ofNat n : α) = some n := by
  unfold Scalar.natCeil?
  split
  next hle =>
    rw [h.literal, h.le hn.le (Nat.zero_lt_of_lt hn)] at hle
    rw [Nat.le_zero.mp hle]
  next =>
    rw [h.toInt? hn]
    rfl

/-- A natural number of elements is what is asked for, also where it was worked out, and there is
room for it or not. -/
theorem bufferLength [Memory] {size n : Nat} (hsize : 0 < size)
    (hbound : maxBytes / size < bound) (hn : n * size ≤ maxBytes) :
    bufferLength size (ofNat n : α)
      = if Memory.hasRoom (n * size) then .ok n else .error .noRoom := by
  have hle : n ≤ maxBytes / size := (Nat.le_div_iff_mul_le hsize).mpr hn
  have hlong : ¬ (ofNat (maxBytes / size + 1) : α) ≤ ofNat n := by
    rw [h.le hbound (hle.trans_lt hbound)]
    omega
  have hwhole : (Scalar.toInt (ofNat n : α)).toNat = n := by
    rw [h.toInt (hle.trans_lt hbound), Int.toNat_natCast]
  unfold Raster.bufferLength
  rw [if_neg (not_or.mpr ⟨h.not_le_neg_one (hle.trans_lt hbound), hlong⟩), hwhole]

end ExactBelow

end Scalar

end Raster
