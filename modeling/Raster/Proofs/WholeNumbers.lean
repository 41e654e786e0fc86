import Raster.Proofs.ExactNaturals
import Raster.Proofs.NormalFloats

/-!
# Whole numbers in binary floating point

Sums and products of natural numbers below `2 ^ 53` are worked out without
rounding as long as they stay below (`ofNat_add`, `ofNat_mul`), comparison
tells such numbers apart (`ofNat_beq`) and the integer part gives them back
(`toInt_ofNat`), so floats are exact below that bound
(`Scalar.exactBelow_float`). A product that does not stay below is rounded,
but not to a number below (`large_mul`, `large_mul_four`).
-/

namespace Raster.Binary64

open Float.Model Float.Model.UnpackedFloat

/-! ## Natural numbers -/

/-- The significand of a natural number below `2 ^ 53`. -/
def significand (n : Nat) : Nat := n * 2 ^ (52 - n.log2)

theorem log2_mul_two_pow {n : Nat} (hn : n ≠ 0) (k : Nat) : (n * 2 ^ k).log2 = n.log2 + k := by
  apply log2_of_mem
  · rw [Nat.pow_add]
    exact Nat.mul_le_mul_right _ (Nat.log2_self_le hn)
  · rw [show n.log2 + k + 1 = n.log2 + 1 + k by omega, Nat.pow_add]
    exact Nat.mul_lt_mul_of_pos_right Nat.lt_log2_self (Nat.two_pow_pos k)

theorem log2_le {n : Nat} (hn : n < 2 ^ 53) : n.log2 ≤ 52 := by
  rcases Nat.eq_zero_or_pos n with rfl | hpos
  · decide
  · have hlog := (Nat.log2_lt hpos.ne').mpr hn
    omega

theorem significand_mem {n : Nat} (hne : n ≠ 0) (hn : n < 2 ^ 53) :
    2 ^ 52 ≤ significand n ∧ significand n < 2 ^ 53 := by
  have hlog := log2_le hn
  have hlower : 2 ^ n.log2 * 2 ^ (52 - n.log2) = 2 ^ 52 := by rw [← Nat.pow_add]; congr 1; omega
  have hupper : 2 ^ (n.log2 + 1) * 2 ^ (52 - n.log2) = 2 ^ 53 := by
    rw [← Nat.pow_add]; congr 1; omega
  constructor
  · rw [← hlower]
    exact Nat.mul_le_mul_right _ (Nat.log2_self_le hne)
  · rw [← hupper]
    exact Nat.mul_lt_mul_of_pos_right Nat.lt_log2_self (Nat.two_pow_pos _)

/-- A natural number as it is held without rounding. -/
def whole (n : Nat) : UnpackedFloat :=
  if h : n = 0 then .zero .positive
  else .finite .positive (significand n) (n.log2 - 52)
    (Nat.mul_pos (Nat.pos_of_ne_zero h) (Nat.two_pow_pos _))

theorem normal_whole {n : Nat} (hne : n ≠ 0) (hn : n < 2 ^ 53) :
    Normal (whole n) (significand n) (n.log2 - 52) :=
  ⟨significand_mem hne hn, _, dif_neg hne⟩

theorem eq_whole_of_normal {u : UnpackedFloat} {n : Nat} (hne : n ≠ 0)
    (h : Normal u (significand n) (n.log2 - 52)) : u = whole n := by
  obtain ⟨-, hpos, rfl⟩ := h
  rw [whole, dif_neg hne]

theorem unpack_pack_whole {n : Nat} (hn : n < 2 ^ 53) :
    (Float.Model.pack (whole n)).unpack = whole n := by
  rcases Nat.eq_zero_or_pos n with rfl | hpos
  · rfl
  · have hlog := log2_le hn
    exact unpack_pack (normal_whole hpos.ne' hn) ⟨by omega, by omega⟩

/-- Rounding what is a natural number already. -/
theorem roundWithAccuracy_whole {n m : Nat} {e : Int} (k : Nat) (hne : n ≠ 0) (hn : n < 2 ^ 53)
    (hm : m = significand n * 2 ^ k) (he : e + k = n.log2 - 52) :
    roundWithAccuracy Format.binary64 .positive m e .exact = whole n := by
  have hnormal := normal_roundWithAccuracy_mul (k := k) (e := e) (significand_mem hne hn) (by omega)
  rw [← hm, he] at hnormal
  exact eq_whole_of_normal hne hnormal

theorem mul_whole {a b : Nat} (ha : a < 2 ^ 53) (hb : b < 2 ^ 53) (h : a * b < 2 ^ 53) :
    UnpackedFloat.mul Format.binary64 (whole a) (whole b) = whole (a * b) := by
  rcases Nat.eq_zero_or_pos a with rfl | hapos
  · rw [Nat.zero_mul]
    rcases Nat.eq_zero_or_pos b with rfl | hbpos
    · rfl
    · obtain ⟨-, hpos, heq⟩ := normal_whole hbpos.ne' hb
      rw [heq]
      rfl
  rcases Nat.eq_zero_or_pos b with rfl | hbpos
  · obtain ⟨-, hpos, heq⟩ := normal_whole hapos.ne' ha
    rw [heq]
    rfl
  have hlogs : a.log2 + b.log2 ≤ (a * b).log2 := by
    rw [Nat.le_log2 (Nat.mul_pos hapos hbpos).ne', Nat.pow_add]
    exact Nat.mul_le_mul (Nat.log2_self_le hapos.ne') (Nat.log2_self_le hbpos.ne')
  have hlog := log2_le h
  obtain ⟨-, hposa, heqa⟩ := normal_whole hapos.ne' ha
  obtain ⟨-, hposb, heqb⟩ := normal_whole hbpos.ne' hb
  rw [heqa, heqb]
  refine roundWithAccuracy_whole (52 + (a * b).log2 - a.log2 - b.log2)
    (Nat.mul_pos hapos hbpos).ne' h ?_ (by omega)
  rw [significand, significand, significand, Nat.mul_mul_mul_comm, ← Nat.pow_add,
    Nat.mul_assoc (a * b), ← Nat.pow_add]
  congr 2
  omega

/-- Rounding a number whose significand is short but for zeros at its end. -/
theorem normal_round {n : Nat} (hne : n ≠ 0) (hn : n < 2 ^ 53) (k : Nat) {e : Int}
    (hlow : -1022 ≤ n.log2 + k + e) :
    Normal (UnpackedFloat.round Format.binary64 .positive (n * 2 ^ k) e) (significand n)
      (n.log2 + k + e - 52) := by
  have hlog := log2_le hn
  have htarget : Format.binary64.targetExponent (totalExponent (n * 2 ^ k) e)
      = n.log2 + k + e - 52 := by
    rw [totalExponent, log2_mul_two_pow hne]
    unfold Format.targetExponent Format.mantissaBits Format.minExponent
    norm_num [Format.mantissaBits]
    omega
  simp only [UnpackedFloat.round, htarget, decreaseExponent]
  generalize hs : (e - (n.log2 + k + e - 52)).toNat = s
  have hlength : (n * 2 ^ k) <<< s = significand n * 2 ^ (k + s + n.log2 - 52) := by
    rw [Nat.shiftLeft_eq, significand, Nat.mul_assoc, Nat.mul_assoc, ← Nat.pow_add, ← Nat.pow_add]
    congr 2
    omega
  have hnormal := normal_roundWithAccuracy_mul (k := k + s + n.log2 - 52) (e := e - s)
    (significand_mem hne hn) (by omega)
  have hexponent : e - s + (k + s + n.log2 - 52 : Nat) = n.log2 + k + e - 52 := by omega
  rw [hexponent] at hnormal
  rw [hlength]
  exact hnormal

/-- Rounding a natural number with some places after the point. -/
theorem round_whole {n : Nat} (hne : n ≠ 0) (hn : n < 2 ^ 53) (k : Nat) :
    UnpackedFloat.round Format.binary64 .positive (n * 2 ^ k) (-k) = whole n := by
  have hround := normal_round hne hn k (e := -k) (by omega)
  rw [show (n.log2 : Int) + k + -k - 52 = n.log2 - 52 by omega] at hround
  exact eq_whole_of_normal hne hround

/-- Positive numbers are added after both are written with the places of the smaller exponent. -/
theorem add_of_places {m m' a b : Nat} {e e' c : Int} {hm : 0 < m} {hm' : 0 < m'}
    (hc : Min.min e e' = c) (ha : (decreaseExponent m e c).1 = a)
    (hb : (decreaseExponent m' e' c).1 = b) (hpos : 0 < a + b) :
    UnpackedFloat.add Format.binary64 (.finite .positive m e hm) (.finite .positive m' e' hm')
      = UnpackedFloat.round Format.binary64 .positive (a + b) c := by
  have hsum : Sign.positive.apply a + Sign.positive.apply b = (a + b : Nat) := rfl
  have hpositive : compare ((a + b : Nat) : Int) 0 = .gt :=
    Int.compare_eq_gt.mpr (by exact_mod_cast hpos)
  simp only [UnpackedFloat.add, hc, ha, hb, hsum, UnpackedFloat.normalize, hpositive]
  rfl

theorem places_significand {n k : Nat} (hn : n.log2 ≤ 52) (hk : 52 - n.log2 ≤ k) :
    (decreaseExponent (significand n) (n.log2 - 52) (-k)).1 = n * 2 ^ k := by
  have hs : ((n.log2 : Int) - 52 - -k).toNat = k - (52 - n.log2) := by omega
  rw [decreaseExponent, hs, Nat.shiftLeft_eq, significand, Nat.mul_assoc, ← Nat.pow_add,
    Nat.add_sub_cancel' hk]

theorem add_whole {a b : Nat} (h : a + b < 2 ^ 53) :
    UnpackedFloat.add Format.binary64 (whole a) (whole b) = whole (a + b) := by
  have ha : a < 2 ^ 53 := by omega
  have hb : b < 2 ^ 53 := by omega
  rcases Nat.eq_zero_or_pos a with rfl | hapos
  · rw [Nat.zero_add]
    rcases Nat.eq_zero_or_pos b with rfl | hbpos
    · rfl
    · obtain ⟨-, hpos, heq⟩ := normal_whole hbpos.ne' hb
      rw [heq]
      rfl
  rcases Nat.eq_zero_or_pos b with rfl | hbpos
  · obtain ⟨-, hpos, heq⟩ := normal_whole hapos.ne' ha
    rw [Nat.add_zero, heq]
    rfl
  have hloga := log2_le ha
  have hlogb := log2_le hb
  obtain ⟨-, hposa, heqa⟩ := normal_whole hapos.ne' ha
  obtain ⟨-, hposb, heqb⟩ := normal_whole hbpos.ne' hb
  obtain ⟨k, hk⟩ : ∃ k, k = 52 - Min.min a.log2 b.log2 := ⟨_, rfl⟩
  have hpos : 0 < a * 2 ^ k + b * 2 ^ k := Nat.add_pos_left (Nat.mul_pos hapos (by simp)) _
  rw [heqa, heqb, add_of_places (c := -k) (by omega) (places_significand hloga (by omega))
    (places_significand hlogb (by omega)) hpos, ← Nat.add_mul]
  exact round_whole (by omega) h k

/-! ## Numbers that are held -/

theorem toFloat_eq {n : Nat} (hn : n < 2 ^ 53) :
    n.toUInt64.toFloat = .ofModel (Float.Model.pack (whole n)) := by
  have hword : n.toUInt64.toNat = n := UInt64.toNat_ofNat_of_lt (hn.trans (by decide))
  show Float.ofModel (Float.Model.pack
    (UnpackedFloat.normalize Format.binary64 n.toUInt64.toNat 0 .positive)) = _
  rw [hword]
  rcases Nat.eq_zero_or_pos n with rfl | hpos
  · rfl
  · have hpositive : compare (n : Int) 0 = .gt := Int.compare_eq_gt.mpr (by exact_mod_cast hpos)
    have hround := round_whole hpos.ne' hn 0
    rw [Nat.pow_zero, Nat.mul_one] at hround
    simp only [UnpackedFloat.normalize, hpositive]
    exact congrArg _ (congrArg _ hround)

theorem ofNat_eq {n : Nat} (hn : n < 2 ^ 53) :
    Float.ofNat n = .ofModel (Float.Model.pack (whole n)) := by
  have hone : Float.ofNat n = n.toUInt64.toFloat * Float.ofBits 0x3FF0000000000000 :=
    dif_pos (show n < 2 ^ 53 ∧ 0 ≤ 22 from ⟨hn, by decide⟩)
  have hunit : (Float.ofBits 0x3FF0000000000000).toModel.unpack = whole 1 := rfl
  rw [hone, toFloat_eq hn]
  show Float.ofModel (Float.Model.pack (UnpackedFloat.mul Format.binary64
    (Float.Model.pack (whole n)).unpack (Float.ofBits 0x3FF0000000000000).toModel.unpack)) = _
  rw [unpack_pack_whole hn, hunit, mul_whole hn (by decide) (by omega), Nat.mul_one]

theorem unpack_ofNat {n : Nat} (hn : n < 2 ^ 53) : (Float.ofNat n).toModel.unpack = whole n := by
  rw [ofNat_eq hn]
  exact unpack_pack_whole hn

theorem ofNat_mul {a b : Nat} (ha : a < 2 ^ 53) (hb : b < 2 ^ 53) (h : a * b < 2 ^ 53) :
    Float.ofNat a * Float.ofNat b = Float.ofNat (a * b) := by
  show Float.ofModel (Float.Model.pack (UnpackedFloat.mul Format.binary64
    (Float.ofNat a).toModel.unpack (Float.ofNat b).toModel.unpack)) = _
  rw [unpack_ofNat ha, unpack_ofNat hb, mul_whole ha hb h, ofNat_eq h]

theorem ofNat_add {a b : Nat} (h : a + b < 2 ^ 53) :
    Float.ofNat a + Float.ofNat b = Float.ofNat (a + b) := by
  show Float.ofModel (Float.Model.pack (UnpackedFloat.add Format.binary64
    (Float.ofNat a).toModel.unpack (Float.ofNat b).toModel.unpack)) = _
  rw [unpack_ofNat (by omega), unpack_ofNat (by omega), add_whole h, ofNat_eq h]

theorem toInt_ofNat {n : Nat} (hn : n < 2 ^ 53) : toInt (Float.ofNat n) = n := by
  rcases Nat.eq_zero_or_pos n with rfl | hpos
  · rfl
  have hlog := log2_le hn
  have hparts := parts?_pack (normal_whole hpos.ne' hn) ⟨by omega, by omega⟩
  have hunits : (⟨false, significand n, n.log2 - 52⟩ : Parts).inUnits 0 = n := by
    unfold Parts.inUnits significand
    by_cases hexact : (0 : Int) ≤ n.log2 - 52
    · obtain hfull : n.log2 = 52 := by omega
      rw [if_pos hexact, hfull]
      exact Nat.mul_one n
    · have hshift : ((0 : Int) - (n.log2 - 52)).toNat = 52 - n.log2 := by omega
      rw [if_neg hexact]
      show (n * 2 ^ (52 - n.log2)) >>> ((0 : Int) - (n.log2 - 52)).toNat = n
      rw [hshift, Nat.shiftRight_eq_div_pow, Nat.mul_div_cancel _ (Nat.two_pow_pos _)]
  rw [ofNat_eq hn, toInt, hparts]
  exact congrArg Int.ofNat hunits

/-! ## Comparison -/

theorem compare_whole {a b : Nat} (ha : a < 2 ^ 53) (hb : b < 2 ^ 53) :
    (whole a).compare (whole b) = some (compare a b) := by
  rcases Nat.eq_zero_or_pos a with rfl | hapos
  · rcases Nat.eq_zero_or_pos b with rfl | hbpos
    · rfl
    · obtain ⟨-, hpos, heq⟩ := normal_whole hbpos.ne' hb
      rw [heq, Nat.compare_eq_lt.mpr hbpos]
      rfl
  rcases Nat.eq_zero_or_pos b with rfl | hbpos
  · obtain ⟨-, hpos, heq⟩ := normal_whole hapos.ne' ha
    rw [heq, Nat.compare_eq_gt.mpr hapos]
    rfl
  obtain ⟨-, hposa, heqa⟩ := normal_whole hapos.ne' ha
  obtain ⟨-, hposb, heqb⟩ := normal_whole hbpos.ne' hb
  rw [heqa, heqb]
  show some ((compare ((a.log2 : Int) - 52) (b.log2 - 52)).then
    (compare (significand a) (significand b))) = _
  -- of two numbers of different lengths the longer one is greater
  have hlonger {m n : Nat} (hn : n ≠ 0) (h : m.log2 < n.log2) : m < n :=
    calc m < 2 ^ (m.log2 + 1) := Nat.lt_log2_self
      _ ≤ 2 ^ n.log2 := Nat.pow_le_pow_right Nat.two_pos h
      _ ≤ n := Nat.log2_self_le hn
  rcases lt_trichotomy a.log2 b.log2 with h | h | h
  · rw [Int.compare_eq_lt.mpr (by omega), Nat.compare_eq_lt.mpr (hlonger hbpos.ne' h)]
    rfl
  · have hscale {m n : Nat} (hmn : m < n) : m * 2 ^ (52 - b.log2) < n * 2 ^ (52 - b.log2) :=
      Nat.mul_lt_mul_of_pos_right hmn (Nat.two_pow_pos _)
    rw [h, Int.compare_eq_eq.mpr rfl, significand, significand, h]
    rcases lt_trichotomy a b with hab | rfl | hab
    · rw [Nat.compare_eq_lt.mpr hab, Nat.compare_eq_lt.mpr (hscale hab)]
      rfl
    · rw [Nat.compare_eq_eq.mpr rfl, Nat.compare_eq_eq.mpr rfl]
      rfl
    · rw [Nat.compare_eq_gt.mpr hab, Nat.compare_eq_gt.mpr (hscale hab)]
      rfl
  · rw [Int.compare_eq_gt.mpr (by omega), Nat.compare_eq_gt.mpr (hlonger hapos.ne' h)]
    rfl

theorem ofNat_beq {a b : Nat} (ha : a < 2 ^ 53) (hb : b < 2 ^ 53) :
    (Float.ofNat a == Float.ofNat b) = decide (a = b) := by
  show ((Float.ofNat a).toModel.unpack.compare (Float.ofNat b).toModel.unpack == some .eq) = _
  rw [unpack_ofNat ha, unpack_ofNat hb, compare_whole ha hb]
  by_cases h : a = b
  · rw [Nat.compare_eq_eq.mpr h, decide_eq_true h]
    rfl
  · have hne : compare a b ≠ .eq := fun heq => h (Nat.compare_eq_eq.mp heq)
    rw [decide_eq_false h]
    cases hcompare : compare a b with
    | eq => exact absurd hcompare hne
    | lt => rfl
    | gt => rfl

theorem le_iff (x y : Float) :
    x ≤ y ↔ (x.toModel.unpack.compare y.toModel.unpack).any (·.isLE) = true :=
  decide_eq_true_iff

theorem lt_iff (x y : Float) :
    x < y ↔ x.toModel.unpack.compare y.toModel.unpack = some .lt := by
  have hless : x < y ↔ (x.toModel.unpack.compare y.toModel.unpack == some .lt) = true :=
    decide_eq_true_iff
  rw [hless, beq_iff_eq]

theorem ofNat_lt_iff {a b : Nat} (ha : a < 2 ^ 53) (hb : b < 2 ^ 53) :
    Float.ofNat a < Float.ofNat b ↔ a < b := by
  rw [lt_iff, unpack_ofNat ha, unpack_ofNat hb, compare_whole ha hb, Option.some.injEq,
    Nat.compare_eq_lt]

theorem ofNat_le_iff {a b : Nat} (ha : a < 2 ^ 53) (hb : b < 2 ^ 53) :
    Float.ofNat a ≤ Float.ofNat b ↔ a ≤ b := by
  rw [le_iff, unpack_ofNat ha, unpack_ofNat hb, compare_whole ha hb, Option.any_some,
    Nat.isLE_compare]

theorem not_ofNat_le_neg_one {n : Nat} (hn : n < 2 ^ 53) : ¬ Float.ofNat n ≤ -1 := by
  have hunit : (-1 : Float).toModel.unpack = .finite .negative (2 ^ 52) (-52) (by decide) := rfl
  have hgreater : (whole n).compare (-1 : Float).toModel.unpack = some .gt := by
    rw [hunit]
    rcases Nat.eq_zero_or_pos n with rfl | hpos
    · rfl
    · obtain ⟨-, hpos, heq⟩ := normal_whole hpos.ne' hn
      rw [heq]
      rfl
  rw [le_iff, unpack_ofNat hn, hgreater]
  decide

/-- A number from `2 ^ 53` on. -/
def Large (x : Float) : Prop := ∃ m e, Normal x.toModel.unpack m e ∧ 1 ≤ e

theorem Large.compare_whole {x : Float} (hx : Large x) {n : Nat} (hn : n < 2 ^ 53) :
    x.toModel.unpack.compare (whole n) = some .gt
      ∧ (whole n).compare x.toModel.unpack = some .lt := by
  obtain ⟨m, e, ⟨-, hm, hx⟩, he⟩ := hx
  rw [hx]
  rcases Nat.eq_zero_or_pos n with rfl | hpos
  · exact ⟨rfl, rfl⟩
  obtain ⟨-, hposn, heqn⟩ := normal_whole hpos.ne' hn
  have hlog := log2_le hn
  rw [heqn]
  constructor
  · show some ((compare e (n.log2 - 52)).then (compare m (significand n))) = some .gt
    rw [Int.compare_eq_gt.mpr (by omega)]
    rfl
  · show some ((compare (n.log2 - 52 : Int) e).then (compare (significand n) m)) = some .lt
    rw [Int.compare_eq_lt.mpr (by omega)]
    rfl

theorem Large.ofNat_beq {x : Float} (hx : Large x) {n : Nat} (hn : n < 2 ^ 53) :
    (Float.ofNat n == x) = false := by
  show ((Float.ofNat n).toModel.unpack.compare x.toModel.unpack == some .eq) = false
  rw [unpack_ofNat hn, (hx.compare_whole hn).2]
  rfl

theorem Large.not_le_ofNat {x : Float} (hx : Large x) {n : Nat} (hn : n < 2 ^ 53) :
    ¬ x ≤ Float.ofNat n := by
  rw [le_iff, unpack_ofNat hn, (hx.compare_whole hn).1]
  decide

theorem large_ofNat : Large (Float.ofNat 9007199254740992) :=
  ⟨2 ^ 52, 1, ⟨by decide, by decide, rfl⟩, by decide⟩

theorem Large.ofNat_le {x : Float} (hx : Large x) : Float.ofNat 9007199254740992 ≤ x := by
  obtain ⟨m, e, ⟨⟨hm, -⟩, hpos, hx⟩, he⟩ := hx
  have hleast : (Float.ofNat 9007199254740992).toModel.unpack
      = .finite .positive (2 ^ 52) 1 (by decide) := rfl
  rw [le_iff, hleast, hx]
  show (some ((compare (1 : Int) e).then (compare (2 ^ 52) m))).any (·.isLE) = true
  rcases lt_or_eq_of_le he with h | rfl
  · rw [Int.compare_eq_lt.mpr h]
    rfl
  · rw [Int.compare_eq_eq.mpr rfl]
    exact Nat.isLE_compare.mpr hm

/-- A product is rounded to a number that is at least as long. -/
theorem normal_mul {x y : Float} {m m' : Nat} {e e' : Int} (hx : Normal x.toModel.unpack m e)
    (hy : Normal y.toModel.unpack m' e') (hlow : -1126 ≤ e + e') (hhigh : e + e' ≤ 917) :
    ∃ m'' e'', Normal (x * y).toModel.unpack m'' e'' ∧ (m * m').log2 + (e + e') - 52 ≤ e''
      ∧ e'' ≤ (m * m').log2 + (e + e') - 51 := by
  obtain ⟨⟨hm, hm2⟩, hpos, hx⟩ := hx
  obtain ⟨⟨hm', hm2'⟩, hpos', hy⟩ := hy
  have hlong : 104 ≤ (m * m').log2 := by
    rw [Nat.le_log2 (Nat.mul_pos hpos hpos').ne', show 104 = 52 + 52 from rfl, Nat.pow_add]
    exact Nat.mul_le_mul hm hm'
  have hshort : (m * m').log2 < 106 := by
    rw [Nat.log2_lt (Nat.mul_pos hpos hpos').ne', show 106 = 53 + 53 from rfl, Nat.pow_add]
    exact Nat.mul_lt_mul'' hm2 hm2'
  obtain ⟨m'', e'', hround, hle, hle'⟩ :=
    normal_roundWithAccuracy (m := m * m') (e := e + e') (by omega) (by omega)
  refine ⟨m'', e'', ?_, hle, hle'⟩
  show Normal (Float.Model.pack (UnpackedFloat.mul Format.binary64
    x.toModel.unpack y.toModel.unpack)).unpack m'' e''
  rw [hx, hy]
  show Normal (Float.Model.pack (roundWithAccuracy Format.binary64 .positive (m * m') (e + e')
    .exact)).unpack m'' e''
  rw [unpack_pack hround ⟨by omega, by omega⟩]
  exact hround

theorem normal_ofNat {n : Nat} (hne : n ≠ 0) (hn : n < 2 ^ 53) :
    Normal (Float.ofNat n).toModel.unpack (significand n) (n.log2 - 52) := by
  rw [unpack_ofNat hn]
  exact normal_whole hne hn

/-- A product of two natural numbers is rounded to a float that is at least as long. -/
theorem normal_mul_ofNat {a b : Nat} (ha : a < 2 ^ 53) (hb : b < 2 ^ 53) (hne : a * b ≠ 0) :
    ∃ m e, Normal (Float.ofNat a * Float.ofNat b).toModel.unpack m e ∧ (a * b).log2 - 52 ≤ e
      ∧ e ≤ (a * b).log2 - 51 := by
  have hane : a ≠ 0 := left_ne_zero_of_mul hne
  have hbne : b ≠ 0 := right_ne_zero_of_mul hne
  have hloga := log2_le ha
  have hlogb := log2_le hb
  obtain ⟨m, e, hnormal, hle, hle'⟩ := normal_mul (normal_ofNat hane ha) (normal_ofNat hbne hb)
    (by omega) (by omega)
  have hproduct : significand a * significand b = a * b * 2 ^ (104 - a.log2 - b.log2) := by
    rw [significand, significand, Nat.mul_mul_mul_comm, ← Nat.pow_add]
    congr 2
    omega
  rw [hproduct, log2_mul_two_pow hne] at hle hle'
  exact ⟨m, e, hnormal, by omega, by omega⟩

/-- A product of two numbers, where it is long. -/
theorem large_mul {a b : Nat} (ha : a < 2 ^ 53) (hb : b < 2 ^ 53) (h : 2 ^ 53 ≤ a * b) :
    Large (Float.ofNat a * Float.ofNat b) := by
  have hne : a * b ≠ 0 := by omega
  have hlog : 53 ≤ (a * b).log2 := (Nat.le_log2 hne).mpr h
  obtain ⟨m, e, hnormal, hle, -⟩ := normal_mul_ofNat ha hb hne
  exact ⟨m, e, hnormal, by omega⟩

/-- Four times a product of two numbers, where it is long. -/
theorem large_mul_four {a b : Nat} (ha : a < 2 ^ 32) (hb : b < 2 ^ 32) (h : 2 ^ 53 ≤ a * b * 4) :
    Large (Float.ofNat a * Float.ofNat b * Float.ofNat 4) := by
  have hne : a * b ≠ 0 := by omega
  have hlog : 51 ≤ (a * b).log2 := (Nat.le_log2 hne).mpr (by omega)
  have hshort : (a * b).log2 < 64 := by
    rw [Nat.log2_lt hne, show 64 = 32 + 32 from rfl, Nat.pow_add]
    exact Nat.mul_lt_mul'' ha hb
  obtain ⟨m, e, hfirst, hle, hle'⟩ := normal_mul_ofNat (show a < 2 ^ 53 by omega)
    (show b < 2 ^ 53 by omega) hne
  have hfour : Normal (Float.ofNat 4).toModel.unpack (2 ^ 52) (-50) :=
    normal_ofNat (n := 4) (by decide) (by decide)
  obtain ⟨m', e', hsecond, hle2, -⟩ := normal_mul hfirst hfour (by omega) (by omega)
  have hlower := hfirst.1.1
  have hm := log2_of_mem hlower hfirst.1.2
  rw [log2_mul_two_pow (by omega)] at hle2
  exact ⟨m', e', hsecond, by omega⟩

end Raster.Binary64

namespace Raster.Scalar

open Binary64

theorem exactBelow_float : ExactBelow Float (2 ^ 53) where
  literal _ := rfl
  add h := ofNat_add h
  mul ha hb h := ofNat_mul ha hb h
  toInt hn := toInt_ofNat hn
  beq ha hb := ofNat_beq ha hb
  lt ha hb := ofNat_lt_iff ha hb
  le {a b} ha hb := by
    rcases Nat.eq_or_lt_of_le ha with rfl | ha
    · exact iff_of_false (large_ofNat.not_le_ofNat hb) (by omega)
    · exact ofNat_le_iff ha hb
  not_le_neg_one hn := not_ofNat_le_neg_one hn

end Raster.Scalar
