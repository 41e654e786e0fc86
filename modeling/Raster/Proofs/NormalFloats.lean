import Mathlib
import Raster.Scalar.Binary64

/-!
# Positive floats of full length

A positive float that is not too small has a significand of 53 bits
(`Normal`). Rounding makes one of every significand that is too long, and
changes nothing if the surplus bits are zeros
(`normal_roundWithAccuracy_mul`). The 64 bits of a float keep significand
and exponent: both packing and unpacking (`unpack_pack`) and taking the
bits apart (`parts?_pack`) give them back.
-/

namespace Raster.Binary64

open Float.Model Float.Model.UnpackedFloat

/-! ## Rounding -/

theorem mantissa_shiftRight (em : ExtendedMantissa) (k : Nat) :
    (em >>> k).mantissa = em.mantissa / 2 ^ k := by
  induction k with
  | zero => exact (Nat.div_one _).symm
  | succ k ih =>
    show (em >>> k).mantissa / 2 = _
    rw [ih, Nat.div_div_eq_div_mul, Nat.pow_succ]

/-- Zeros that are shifted out leave no trace. -/
theorem shiftRight_mul_two_pow (m k : Nat) :
    (⟨m * 2 ^ k, false, false⟩ : ExtendedMantissa) >>> k = ⟨m, false, false⟩ := by
  induction k generalizing m with
  | zero => exact congrArg (fun m => ExtendedMantissa.mk m false false) (Nat.mul_one m)
  | succ k ih =>
    show ((⟨m * 2 ^ (k + 1), false, false⟩ : ExtendedMantissa) >>> k).shiftRightOne = _
    rw [Nat.pow_succ, ← Nat.mul_assoc, Nat.mul_right_comm, ih]
    simp [ExtendedMantissa.shiftRightOne]

theorem roundedMantissa_mem (em : ExtendedMantissa) :
    em.mantissa ≤ em.roundedMantissa ∧ em.roundedMantissa ≤ em.mantissa + 1 := by
  obtain ⟨m, round, sticky⟩ := em
  cases round <;> cases sticky <;>
    simp only [ExtendedMantissa.roundedMantissa, ExtendedMantissa.accuracy,
      Accuracy.roundToNearestEven] <;> omega

/-- A positive number with a significand of full length. -/
def Normal (u : UnpackedFloat) (m : Nat) (e : Int) : Prop :=
  (2 ^ 52 ≤ m ∧ m < 2 ^ 53) ∧ ∃ h, u = .finite .positive m e h

theorem log2_of_mem {m k : Nat} (h : 2 ^ k ≤ m) (h' : m < 2 ^ (k + 1)) : m.log2 = k := by
  have hne : m ≠ 0 := (Nat.two_pow_pos k |>.trans_le h).ne'
  exact (Nat.log2_eq_iff hne).mpr ⟨h, h'⟩

theorem shiftToTargetExponent_eq {m : Nat} {e : Int} (hlong : 52 ≤ m.log2)
    (hlow : -1022 ≤ m.log2 + e) :
    shiftToTargetExponent Format.binary64 m e .exact
      = ((⟨m, false, false⟩ : ExtendedMantissa) >>> (m.log2 - 52), e + (m.log2 - 52 : Nat)) := by
  have htarget : Format.binary64.targetExponent (totalExponent m e) = m.log2 + e - 52 := by
    unfold Format.targetExponent totalExponent Format.mantissaBits Format.minExponent
    norm_num [Format.mantissaBits]
    omega
  have hshift : (m.log2 + e - 52 - e).toNat = m.log2 - 52 := by omega
  simp only [shiftToTargetExponent, shiftToExponent, htarget, hshift]
  rfl

/-- A significand of full length is left as it is. -/
theorem shiftToTargetExponent_normal {m : Nat} {e : Int} (hm : 2 ^ 52 ≤ m ∧ m < 2 ^ 53)
    (hlow : -1074 ≤ e) :
    shiftToTargetExponent Format.binary64 m e .exact = (⟨m, false, false⟩, e) := by
  have hlog := log2_of_mem hm.1 hm.2
  rw [shiftToTargetExponent_eq (by omega) (by omega), hlog]
  exact congrArg (Prod.mk _) (Int.add_zero e)

theorem normal_of_shift {m : Nat} {e e' : Int} {em : ExtendedMantissa}
    (hshift : shiftToTargetExponent Format.binary64 m e .exact = (em, e'))
    (hr : 2 ^ 52 ≤ em.roundedMantissa ∧ em.roundedMantissa < 2 ^ 53) (hlow : -1074 ≤ e') :
    Normal (roundWithAccuracy Format.binary64 .positive m e .exact) em.roundedMantissa e' := by
  refine ⟨hr, by omega, ?_⟩
  simp only [roundWithAccuracy, hshift, shiftToTargetExponent_normal hr hlow]
  exact dif_neg (by omega)

/-- A significand that rounding has made one bit too long is halved. -/
theorem normal_of_shift_of_carry {m : Nat} {e e' : Int} {em : ExtendedMantissa}
    (hshift : shiftToTargetExponent Format.binary64 m e .exact = (em, e'))
    (hr : em.roundedMantissa = 2 ^ 53) (hlow : -1074 ≤ e') :
    Normal (roundWithAccuracy Format.binary64 .positive m e .exact) (2 ^ 52) (e' + 1) := by
  have hlog : (2 ^ 53 : Nat).log2 = 53 := Nat.log2_two_pow
  have hcarry := shiftToTargetExponent_eq (m := 2 ^ 53) (e := e') (by omega) (by omega)
  rw [hlog] at hcarry
  refine ⟨by decide, by decide, ?_⟩
  simp only [roundWithAccuracy, hshift, hr, hcarry]
  rfl

/-- Rounding a number whose significand is too long. -/
theorem normal_roundWithAccuracy {m : Nat} {e : Int} (hlong : 52 ≤ m.log2)
    (hlow : -1022 ≤ m.log2 + e) :
    ∃ m' e', Normal (roundWithAccuracy Format.binary64 .positive m e .exact) m' e'
      ∧ m.log2 + e - 52 ≤ e' ∧ e' ≤ m.log2 + e - 51 := by
  have hne : m ≠ 0 := by
    rintro rfl
    simp at hlong
  have hsplit : m.log2 = 52 + (m.log2 - 52) := by omega
  have hshift := shiftToTargetExponent_eq hlong hlow
  have hlower : 2 ^ 52 ≤ m / 2 ^ (m.log2 - 52) := by
    rw [Nat.le_div_iff_mul_le (Nat.two_pow_pos _), ← Nat.pow_add, ← hsplit]
    exact Nat.log2_self_le hne
  have hupper : m / 2 ^ (m.log2 - 52) < 2 ^ 53 := by
    rw [Nat.div_lt_iff_lt_mul (Nat.two_pow_pos _), ← Nat.pow_add,
      show 53 + (m.log2 - 52) = m.log2 + 1 by omega]
    exact Nat.lt_log2_self
  generalize hem : (⟨m, false, false⟩ : ExtendedMantissa) >>> (m.log2 - 52) = em at hshift
  have hmantissa : em.mantissa = m / 2 ^ (m.log2 - 52) := by rw [← hem, mantissa_shiftRight]
  obtain ⟨hle, hle'⟩ := roundedMantissa_mem em
  rcases Nat.lt_or_ge em.roundedMantissa (2 ^ 53) with hlt | hge
  · exact ⟨_, _, normal_of_shift hshift ⟨by omega, hlt⟩ (by omega), by omega, by omega⟩
  · exact ⟨_, _, normal_of_shift_of_carry hshift (by omega) (by omega), by omega, by omega⟩

/-- A significand that is too long only by zeros is not rounded. -/
theorem normal_roundWithAccuracy_mul {m k : Nat} {e : Int} (hm : 2 ^ 52 ≤ m ∧ m < 2 ^ 53)
    (hlow : -1074 ≤ e + k) :
    Normal (roundWithAccuracy Format.binary64 .positive (m * 2 ^ k) e .exact) m (e + k) := by
  have hlog : (m * 2 ^ k).log2 = 52 + k := by
    apply log2_of_mem
    · rw [Nat.pow_add]
      exact Nat.mul_le_mul_right _ hm.1
    · rw [show 52 + k + 1 = 53 + k by omega, Nat.pow_add]
      exact Nat.mul_lt_mul_of_pos_right hm.2 (Nat.two_pow_pos k)
  have hshift := shiftToTargetExponent_eq (m := m * 2 ^ k) (e := e) (by omega) (by omega)
  rw [hlog, Nat.add_sub_cancel_left, shiftRight_mul_two_pow] at hshift
  exact normal_of_shift hshift hm hlow

/-! ## Packing -/

/-- The significand with its leading bit put back. -/
theorem toNat_append_ofNat {m : Nat} (h : 2 ^ 52 ≤ m ∧ m < 2 ^ 53) :
    (1#1 ++ BitVec.ofNat 52 m).toNat = m := by
  rw [BitVec.toNat_append, ← Nat.shiftLeft_add_eq_or_of_lt (BitVec.ofNat 52 m).isLt,
    BitVec.toNat_ofNat, Nat.shiftLeft_eq]
  simp only [BitVec.toNat_ofNat]
  omega

theorem pack_normal {u : UnpackedFloat} {m : Nat} {e : Int} (h : Normal u m e)
    (he : -1074 ≤ e ∧ e ≤ 971) :
    UnpackedFloat.pack Format.binary64 u
      = packComponents Format.binary64 .positive (BitVec.ofNat 11 (e + 1075).toNat)
          (BitVec.ofNat 52 m) := by
  obtain ⟨⟨hle, hlt⟩, hpos, rfl⟩ := h
  have hlog := log2_of_mem hle hlt
  have hbias : (e + Format.binary64.exponentBias
      + Format.binary64.mantissaBitsWithoutImplicit).toNat = (e + 1075).toNat := by
    show (e + 1023 + 52).toNat = (e + 1075).toNat
    omega
  unfold UnpackedFloat.pack
  dsimp only
  rw [hbias, if_neg, if_pos]
  · rw [hlog]
    rfl
  · show ¬ 2 ^ 11 ≤ (e + 1075).toNat + 1
    omega

theorem unpack_pack {u : UnpackedFloat} {m : Nat} {e : Int} (h : Normal u m e)
    (he : -1074 ≤ e ∧ e ≤ 971) : (Float.Model.pack u).unpack = u := by
  show UnpackedFloat.unpack Format.binary64 (UnpackedFloat.pack Format.binary64 u) = u
  rw [pack_normal h he]
  obtain ⟨hm, hpos, rfl⟩ := h
  have hexponent : (BitVec.ofNat 11 (e + 1075).toNat).toNat = (e + 1075).toNat := by
    rw [BitVec.toNat_ofNat]
    exact Nat.mod_eq_of_lt (by omega)
  have hfinite : BitVec.ofNat 11 (e + 1075).toNat ≠ -1#11 := by
    intro hall
    have hmax : (e + 1075).toNat = 2047 := hexponent.symm.trans (congrArg BitVec.toNat hall)
    omega
  have hnormal : BitVec.ofNat 11 (e + 1075).toNat ≠ 0#11 := by
    intro hnone
    have hmin : (e + 1075).toNat = 0 := hexponent.symm.trans (congrArg BitVec.toNat hnone)
    omega
  simp only [UnpackedFloat.unpack, unpackMantissa_packComponents, unpackExponent_packComponents,
    unpackSign_packComponents, Sign.ofBitVec_toBitVec, if_neg hfinite, if_neg hnormal, hexponent,
    toNat_append_ofNat hm]
  have hbias : ((e + 1075).toNat : Int) - ((Format.binary64.exponentBias : Int)
      + Format.binary64.mantissaBitsWithoutImplicit) = e := by
    show ((e + 1075).toNat : Int) - (1023 + 52) = e
    omega
  rw [hbias]

theorem toNat_packComponents {exponent fraction : Nat} (he : exponent < 2 ^ 11)
    (hf : fraction < 2 ^ 52) :
    (packComponents Format.binary64 .positive (BitVec.ofNat 11 exponent)
      (BitVec.ofNat 52 fraction)).toNat = exponent * 2 ^ 52 + fraction := by
  have hfraction : (BitVec.ofNat 52 fraction).toNat = fraction := by
    rw [BitVec.toNat_ofNat, Nat.mod_eq_of_lt hf]
  have hexponent : (Sign.toBitVec .positive ++ BitVec.ofNat 11 exponent).toNat = exponent := by
    rw [BitVec.toNat_append, BitVec.toNat_ofNat, Nat.mod_eq_of_lt he]
    show 0 <<< 11 ||| exponent = exponent
    rw [Nat.zero_shiftLeft, Nat.zero_or]
  show (Sign.toBitVec .positive ++ BitVec.ofNat 11 exponent ++ BitVec.ofNat 52 fraction).toNat = _
  rw [BitVec.toNat_append, hexponent, hfraction, ← Nat.shiftLeft_add_eq_or_of_lt hf,
    Nat.shiftLeft_eq]

/-- Taking a packed number apart gives significand and exponent. -/
theorem parts?_pack {u : UnpackedFloat} {m : Nat} {e : Int} (h : Normal u m e)
    (he : -1074 ≤ e ∧ e ≤ 971) : parts? (.ofModel (Float.Model.pack u)) = some ⟨false, m, e⟩ := by
  have hm := h.1
  have hfraction : BitVec.ofNat 52 m = BitVec.ofNat 52 (m - 2 ^ 52) := by
    apply BitVec.eq_of_toNat_eq
    rw [BitVec.toNat_ofNat, BitVec.toNat_ofNat]
    omega
  have hbits : (Float.ofModel (Float.Model.pack u)).toBits.toNat
      = (e + 1075).toNat * 2 ^ 52 + (m - 2 ^ 52) := by
    show (UnpackedFloat.pack Format.binary64 u).toNat = _
    rw [pack_normal h he, hfraction, toNat_packComponents (by omega) (by omega)]
  generalize hE : (e + 1075).toNat = E at hbits
  have hfield : ((E * 2 ^ 52 + (m - 2 ^ 52)) >>> 52) % 2048 = E := by
    rw [Nat.shiftRight_eq_div_pow]
    omega
  have hsign : ((E * 2 ^ 52 + (m - 2 ^ 52)) >>> 63 == 1) = false := by
    rw [Nat.shiftRight_eq_div_pow]
    simp only [beq_eq_false_iff_ne]
    omega
  have hrest : (E * 2 ^ 52 + (m - 2 ^ 52)) % (1 <<< 52) + 1 <<< 52 = m := by
    rw [Nat.shiftLeft_eq]
    omega
  simp only [parts?, hbits, hfield, hsign, hrest]
  rw [if_neg (by omega), if_neg (by omega)]
  have hexponent : (E : Int) - 1075 = e := by omega
  rw [hexponent]

end Raster.Binary64
