import Raster.Proofs.WholeNumbers
import Raster.Geometry.Transformation

/-!
# Pixel centres in binary floating point

Multiplying by one and adding a zero change no positive float of full
length, whatever the sign of the zero (`Binary64.Held`). The coordinates of
a pixel centre are such floats (`Binary64.held_add_half`). So an identity
transformation maps the centre to itself
(`Transformation.apply_of_isIdentity`), and so does its inverse, which is
an identity, too, although any of their zeros may be negative
(`Transformation.exists_inverse?_of_isIdentity`).
-/

namespace Raster

namespace Binary64

open Float.Model Float.Model.UnpackedFloat

/-- A positive float of full length. -/
def Held (x : Float) : Prop := ∃ m e, Normal x.toModel.unpack m e ∧ -1074 ≤ e ∧ e ≤ 971

/-- One of the two zeros. -/
def IsZero (x : Float) : Prop := ∃ s, x.toModel.unpack = .zero s

/-- A float is what it is packed from. -/
theorem ofModel_pack_unpack (x : Float) : .ofModel (Float.Model.pack x.toModel.unpack) = x :=
  Float.ofBits_toBits x

theorem one_mul_of_held {x : Float} (hx : Held x) : 1 * x = x := by
  obtain ⟨m, e, ⟨hm, hpos, hx⟩, hle, -⟩ := hx
  have hone : (1 : Float).toModel.unpack = .finite .positive (2 ^ 52) (-52) (by decide) := rfl
  obtain ⟨-, hpos', hround⟩ := normal_roundWithAccuracy_mul (k := 52) (e := -52 + e) hm (by omega)
  have hproduct : UnpackedFloat.mul Format.binary64 (1 : Float).toModel.unpack x.toModel.unpack
      = x.toModel.unpack := by
    rw [hone, hx]
    show roundWithAccuracy Format.binary64 .positive (2 ^ 52 * m) (-52 + e) .exact = _
    rw [Nat.mul_comm, hround]
    congr 1
    omega
  show .ofModel (Float.Model.pack (UnpackedFloat.mul Format.binary64 (1 : Float).toModel.unpack
    x.toModel.unpack)) = x
  rw [hproduct, ofModel_pack_unpack]

theorem isZero_mul_of_held {z x : Float} (hz : IsZero z) (hx : Held x) : IsZero (z * x) := by
  obtain ⟨s, hz⟩ := hz
  obtain ⟨m, e, ⟨-, hpos, hx⟩, -⟩ := hx
  have hproduct : UnpackedFloat.mul Format.binary64 z.toModel.unpack x.toModel.unpack
      = .zero s := by
    rw [hz, hx]
    cases s <;> rfl
  refine ⟨s, ?_⟩
  show (Float.Model.pack (UnpackedFloat.mul Format.binary64 z.toModel.unpack
    x.toModel.unpack)).unpack = .zero s
  rw [hproduct]
  cases s <;> rfl

theorem add_zero_of_held {x z : Float} (hx : Held x) (hz : IsZero z) : x + z = x := by
  obtain ⟨m, e, ⟨-, hpos, hx⟩, -⟩ := hx
  obtain ⟨s, hz⟩ := hz
  have hsum : UnpackedFloat.add Format.binary64 x.toModel.unpack z.toModel.unpack
      = x.toModel.unpack := by
    rw [hx, hz]
    rfl
  show .ofModel (Float.Model.pack (UnpackedFloat.add Format.binary64 x.toModel.unpack
    z.toModel.unpack)) = x
  rw [hsum, ofModel_pack_unpack]

theorem zero_add_of_held {z x : Float} (hz : IsZero z) (hx : Held x) : z + x = x := by
  obtain ⟨m, e, ⟨-, hpos, hx⟩, -⟩ := hx
  obtain ⟨s, hz⟩ := hz
  have hsum : UnpackedFloat.add Format.binary64 z.toModel.unpack x.toModel.unpack
      = x.toModel.unpack := by
    rw [hx, hz]
    rfl
  show .ofModel (Float.Model.pack (UnpackedFloat.add Format.binary64 z.toModel.unpack
    x.toModel.unpack)) = x
  rw [hsum, ofModel_pack_unpack]

/-- A natural number and a half. -/
theorem held_add_half {n : Nat} (hn : n < 2 ^ 52) : Held (Float.ofNat n + 0.5) := by
  have hhalf : (0.5 : Float).toModel.unpack = .finite .positive (2 ^ 52) (-53) (by decide) := rfl
  have hlog : (2 * n + 1).log2 ≤ 52 := log2_le (by omega)
  suffices hsum : Normal (UnpackedFloat.add Format.binary64 (whole n)
      (.finite .positive (2 ^ 52) (-53) (by decide))) (significand (2 * n + 1))
      ((2 * n + 1).log2 - 53) by
    refine ⟨significand (2 * n + 1), (2 * n + 1).log2 - 53, ?_, by omega, by omega⟩
    show Normal (Float.Model.pack (UnpackedFloat.add Format.binary64
      (Float.ofNat n).toModel.unpack (0.5 : Float).toModel.unpack)).unpack _ _
    rw [unpack_ofNat (by omega), hhalf, unpack_pack hsum ⟨by omega, by omega⟩]
    exact hsum
  rcases Nat.eq_zero_or_pos n with rfl | hpos
  · exact ⟨by decide, by decide, rfl⟩
  have hplaces := log2_le (show n < 2 ^ 53 by omega)
  have hround := normal_round (n := 2 * n + 1) (by omega) (by omega) 52 (e := -53) (by omega)
  obtain ⟨-, hposn, heq⟩ := normal_whole hpos.ne' (show n < 2 ^ 53 by omega)
  have hsame : n * 2 ^ 53 + 2 ^ 52 = (2 * n + 1) * 2 ^ 52 := by ring
  rw [heq, add_of_places (c := -53) (b := 2 ^ 52) (by omega)
    (places_significand (k := 53) hplaces (by omega)) rfl (by omega), hsame]
  rwa [show ((2 * n + 1).log2 : Int) + (52 : Nat) + -53 - 52 = (2 * n + 1).log2 - 53 by omega]
    at hround

theorem eq_one_of_beq {x : Float} (h : (x == 1) = true) : x = 1 := by
  have hzero : (1 : Float) ≠ 0 := fun heq => absurd (congrArg Float.toBits heq) (by decide)
  have hnegative : (1 : Float) ≠ -0 := fun heq => absurd (congrArg Float.toBits heq) (by decide)
  rcases (Float.beq_iff_ne_nan_and_eq.mp h).2.2 with hone | ⟨-, habsurd⟩ | ⟨-, habsurd⟩
  · exact hone
  · exact absurd habsurd hnegative
  · exact absurd habsurd hzero

theorem eq_zero_of_beq {x : Float} (h : (x == 0) = true) : x = 0 ∨ x = -0 := by
  rcases (Float.beq_iff_ne_nan_and_eq.mp h).2.2 with hzero | ⟨hzero, -⟩ | ⟨hzero, -⟩
  · exact Or.inl hzero
  · exact Or.inl hzero
  · exact Or.inr hzero

theorem isZero_of_beq {x : Float} (h : (x == 0) = true) : IsZero x := by
  rcases eq_zero_of_beq h with rfl | rfl
  · exact ⟨.positive, rfl⟩
  · exact ⟨.negative, rfl⟩

end Binary64

open Binary64

namespace Transformation

theorem beq_of_isIdentity {t : Transformation Float} (h : t.isIdentity = true) :
    t.a = 1 ∧ (t.b == 0) = true ∧ (t.c == 0) = true ∧ t.d = 1 ∧ (t.tx == 0) = true
      ∧ (t.ty == 0) = true := by
  simp only [isIdentity, Bool.and_eq_true] at h
  obtain ⟨⟨⟨⟨⟨ha, hb⟩, hc⟩, hd⟩, htx⟩, hty⟩ := h
  exact ⟨eq_one_of_beq ha, hb, hc, eq_one_of_beq hd, htx, hty⟩

/-- The inverse of an identity is one, too, also if some of its zeros are negative. -/
theorem exists_inverse?_of_isIdentity {t : Transformation Float} (h : t.isIdentity = true) :
    ∃ inverse, t.inverse? = some inverse ∧ inverse.isIdentity = true := by
  obtain ⟨ha, hb, hc, hd, htx, hty⟩ := beq_of_isIdentity h
  obtain ⟨a, b, c, d, tx, ty⟩ := t
  obtain rfl : a = 1 := ha
  obtain rfl : d = 1 := hd
  rcases eq_zero_of_beq hb with rfl | rfl <;> rcases eq_zero_of_beq hc with rfl | rfl <;>
    rcases eq_zero_of_beq htx with rfl | rfl <;> rcases eq_zero_of_beq hty with rfl | rfl <;>
    exact ⟨_, rfl, rfl⟩

theorem apply_of_isIdentity {t : Transformation Float} (h : t.isIdentity = true)
    {p : Point Float} (hx : Held p.x) (hy : Held p.y) : t.apply p = p := by
  obtain ⟨ha, hb, hc, hd, htx, hty⟩ := beq_of_isIdentity h
  have hright : t.a * p.x + t.b * p.y + t.tx = p.x := by
    rw [ha, one_mul_of_held hx, add_zero_of_held hx (isZero_mul_of_held (isZero_of_beq hb) hy),
      add_zero_of_held hx (isZero_of_beq htx)]
  have hdown : t.c * p.x + t.d * p.y + t.ty = p.y := by
    rw [hd, one_mul_of_held hy, zero_add_of_held (isZero_mul_of_held (isZero_of_beq hc) hx) hy,
      add_zero_of_held hy (isZero_of_beq hty)]
  rw [apply, hright, hdown]

end Transformation

end Raster
