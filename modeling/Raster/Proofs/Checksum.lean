import Mathlib.Data.List.Basic
import Mathlib.Logic.Function.Iterate
import Raster.Png.Crc

/-!
# The checksum by bits

CRC-32 is the remainder of a division of the message by a polynomial over
the field of two elements, in a register of 32 bits that starts and ends
with a complement. The division takes the bits of the message one by one,
the lowest of each byte first (`divideBit`, `crcOfBits`).

Taking a whole byte from a table gives the same (`toBitVec_crc32`). All of
it rests on one fact about exclusive or: what is added to the register
before some steps comes out of them bit by bit, and what is left of it
comes out shifted (`iterate_divideBit_xor`). With the message byte added,
these are the eight steps of its bits; with the upper bytes of the register
added to its lowest, these are the table entry and the rest of the register
(`iterate_eq_low`).

A register may as well be kept as a signed word (`crc32Signed`): only its
bits are looked at.
-/

namespace Raster.Png

/-! ## Division by bits -/

/-- One step of the division: a bit of the message is added to the lowest place of the register,
which is shifted out, and the polynomial is subtracted if the place was set. -/
def divideBit (register : BitVec 32) (bit : Bool) : BitVec 32 :=
  if register.getLsbD 0 ^^ bit then (register >>> 1) ^^^ 0xEDB88320#32 else register >>> 1

/-- The bits of a byte, the lowest first. -/
def bitsOf (byte : UInt8) : List Bool := (List.range 8).map byte.toBitVec.getLsbD

/-- The checksum of a message given by its bits. -/
def crcOfBits (message : List Bool) : BitVec 32 := ~~~ message.foldl divideBit (~~~ 0#32)

theorem divideBit_xor (c v : BitVec 32) :
    divideBit (c ^^^ v) false = divideBit c (v.getLsbD 0) ^^^ (v >>> 1) := by
  have hshift : (c ^^^ v) >>> 1 = (c >>> 1) ^^^ (v >>> 1) := BitVec.ushiftRight_xor_distrib ..
  unfold divideBit
  rw [BitVec.getLsbD_xor, Bool.xor_false, hshift]
  split
  · ac_rfl
  · rfl

/-- What was added to the register at first is as good as the same bits in the message. -/
theorem iterate_divideBit_xor (c v : BitVec 32) (n : ℕ) :
    (divideBit · false)^[n] (c ^^^ v)
      = ((List.range n).map v.getLsbD).foldl divideBit c ^^^ (v >>> n) := by
  induction n with
  | zero => simp
  | succ n ih =>
    rw [Function.iterate_succ_apply', ih, divideBit_xor, List.range_succ, List.map_append,
      List.foldl_append, BitVec.getLsbD_ushiftRight, BitVec.shiftRight_add]
    rfl

/-! ## Division by bytes -/

/-- A register is its lowest byte and what is left when that has been shifted out. -/
theorem eq_low_xor_high (x : BitVec 32) : x = (x &&& 255#32) ^^^ ((x >>> 8) <<< 8) := by
  have hmask (i : ℕ) : (255 : ℕ).testBit i = decide (i < 8) := Nat.testBit_two_pow_sub_one 8 i
  refine BitVec.eq_of_getLsbD_eq fun i hi => ?_
  simp only [BitVec.getLsbD_xor, BitVec.getLsbD_and, BitVec.getLsbD_ofNat,
    BitVec.getLsbD_shiftLeft, BitVec.getLsbD_ushiftRight, hmask]
  by_cases hlow : i < 8
  · simp [hlow, hi]
  · simp [hlow, hi, Nat.add_sub_cancel' (Nat.not_lt.mp hlow)]

/-- In eight steps only the lowest byte of a register is divided. -/
theorem iterate_eq_low (x : BitVec 32) :
    (divideBit · false)^[8] x = (divideBit · false)^[8] (x &&& 255#32) ^^^ (x >>> 8) := by
  have hbits : (List.range 8).map ((x >>> 8) <<< 8).getLsbD = List.replicate 8 false := by
    refine List.map_eq_replicate_iff.mpr fun i hi => ?_
    rw [List.mem_range] at hi
    rw [BitVec.getLsbD_shiftLeft, decide_eq_true hi, Bool.not_true, Bool.and_false, Bool.false_and]
  have hhigh : ((x >>> 8) <<< 8) >>> 8 = x >>> 8 := by
    refine BitVec.eq_of_getLsbD_eq fun i hi => ?_
    simp only [BitVec.getLsbD_ushiftRight, BitVec.getLsbD_shiftLeft]
    by_cases hinside : 8 + i < 32
    · simp [hinside]
    · rw [decide_eq_false hinside, Bool.false_and, Bool.false_and,
        BitVec.getLsbD_of_ge x (8 + i) (Nat.not_lt.mp hinside)]
  conv_lhs => rw [eq_low_xor_high x]
  rw [iterate_divideBit_xor, hbits, hhigh]
  rfl

theorem toBitVec_crcShift (c : UInt32) : (crcShift c).toBitVec = divideBit c.toBitVec false := by
  have hlow : c &&& 1 = 1 ↔ c.toBitVec.getLsbD 0 = true := by
    have hand : (c &&& 1).toBitVec = BitVec.setWidth 32 (BitVec.ofBool (c.toBitVec.getLsbD 0)) :=
      BitVec.and_one_eq_setWidth_ofBool_getLsbD
    rw [← UInt32.toBitVec_inj, hand]
    cases c.toBitVec.getLsbD 0 <;> decide
  unfold crcShift divideBit
  rw [Bool.xor_false]
  simp only [← hlow]
  split
  · exact BitVec.xor_comm ..
  · rfl

theorem toBitVec_crcShift8 (c : UInt32) :
    (crcShift8 c).toBitVec = (divideBit · false)^[8] c.toBitVec := by
  simp only [crcShift8, toBitVec_crcShift, Function.iterate_succ, Function.iterate_zero,
    Function.comp_apply, id]

theorem crcTable_getD {n : ℕ} (h : n < 256) : crcTable.getD n 0 = crcShift8 (UInt32.ofNat n) := by
  simp [crcTable, h]

theorem toNat_and_lt (x : UInt32) : (x &&& 255).toNat < 256 := by
  rw [UInt32.toNat_and]
  exact Nat.lt_of_le_of_lt Nat.and_le_right (by decide)

/-- A byte that is taken from the table divides as its bits do. -/
theorem toBitVec_crcByte (c : UInt32) (byte : UInt8) :
    (crcByte c byte).toBitVec = (bitsOf byte).foldl divideBit c.toBitVec := by
  have hempty : byte.toUInt32.toBitVec >>> 8 = 0#32 := by
    refine BitVec.eq_of_toNat_eq ?_
    rw [BitVec.toNat_ushiftRight, UInt32.toNat_toBitVec, UInt8.toNat_toUInt32,
      Nat.shiftRight_eq_div_pow]
    exact Nat.div_eq_of_lt byte.toNat_lt
  have hbits : (List.range 8).map byte.toUInt32.toBitVec.getLsbD = bitsOf byte := by
    refine List.map_congr_left fun i hi => ?_
    rw [List.mem_range] at hi
    rw [UInt8.toBitVec_toUInt32, BitVec.getLsbD_setWidth,
      decide_eq_true (Nat.lt_trans hi (by decide)), Bool.true_and]
  calc (crcByte c byte).toBitVec
      = (divideBit · false)^[8] ((c.toBitVec ^^^ byte.toUInt32.toBitVec) &&& 255#32)
          ^^^ (c.toBitVec >>> 8) := by
        rw [crcByte, crcTable_getD (toNat_and_lt _), UInt32.ofNat_toNat, UInt32.toBitVec_xor,
          toBitVec_crcShift8]
        rfl
    _ = (divideBit · false)^[8] (c.toBitVec ^^^ byte.toUInt32.toBitVec) := by
        rw [iterate_eq_low (c.toBitVec ^^^ byte.toUInt32.toBitVec),
          BitVec.ushiftRight_xor_distrib, hempty, BitVec.xor_zero]
    _ = (bitsOf byte).foldl divideBit c.toBitVec := by
        rw [iterate_divideBit_xor, hbits, hempty, BitVec.xor_zero]

/-- The checksum by the table is the one by bits. -/
theorem toBitVec_crc32 (bytes : List UInt8) :
    (crc32 bytes).toBitVec = crcOfBits (bytes.flatMap bitsOf) := by
  have hfold (c : UInt32) : (bytes.foldl crcByte c).toBitVec
      = (bytes.flatMap bitsOf).foldl divideBit c.toBitVec := by
    induction bytes generalizing c with
    | nil => rfl
    | cons byte bytes ih =>
      rw [List.foldl_cons, ih, toBitVec_crcByte, List.flatMap_cons, List.foldl_append]
  rw [crc32, UInt32.toBitVec_xor, hfold, crcOfBits, ← BitVec.xor_allOnes]
  rfl

/-- The checksum that is quoted with the algorithm. -/
example : crcOfBits ([49, 50, 51, 52, 53, 54, 55, 56, 57].flatMap bitsOf) = 0xCBF43926#32 := by
  decide +kernel

/-! ## Signed registers -/

/-- `crcByte` on a signed register, which is shifted without its sign. -/
def crcByteSigned (c : Int32) (byte : UInt8) : Int32 :=
  (crcTable.getD ((c ^^^ byte.toUInt32.toInt32) &&& 0xFF).toNatClampNeg 0).toInt32
    ^^^ (c.toUInt32 >>> 8).toInt32

def crc32Signed (bytes : List UInt8) : UInt32 :=
  (bytes.foldl crcByteSigned (-1) ^^^ (-1)).toUInt32

theorem toUInt32_crcByteSigned (c : Int32) (byte : UInt8) :
    (crcByteSigned c byte).toUInt32 = crcByte c.toUInt32 byte := by
  have hplace : ((c ^^^ byte.toUInt32.toInt32) &&& 0xFF).toNatClampNeg
      = ((c.toUInt32 ^^^ byte.toUInt32) &&& 0xFF).toNat := by
    have hsmall := toNat_and_lt (c.toUInt32 ^^^ byte.toUInt32)
    show (BitVec.toInt ((c.toUInt32 ^^^ byte.toUInt32) &&& 0xFF).toBitVec).toNat = _
    rw [BitVec.toInt_eq_toNat_of_lt (by rw [UInt32.toNat_toBitVec]; omega)]
    rfl
  rw [crcByteSigned, crcByte, hplace]
  rfl

theorem crc32Signed_eq (bytes : List UInt8) : crc32Signed bytes = crc32 bytes := by
  have hfold (c : Int32) : (bytes.foldl crcByteSigned c).toUInt32
      = bytes.foldl crcByte c.toUInt32 := by
    induction bytes generalizing c with
    | nil => rfl
    | cons byte bytes ih => rw [List.foldl_cons, ih, toUInt32_crcByteSigned, List.foldl_cons]
  show (bytes.foldl crcByteSigned (-1)).toUInt32 ^^^ 0xFFFFFFFF = crc32 bytes
  rw [hfold]
  rfl

end Raster.Png
