import Raster.Deflate.Inflate
import Raster.Deflate.Stored

/-!
# Stored streams are read back

`deflate` cuts its input into stored blocks, and each of them takes one
step of `State.run`: `State.stepBlock_stored` for one block behind any
bytes read before, and from it `State.run_deflate` for a whole stream.
-/

namespace Raster.Deflate

/-! ## Bits of a header -/

theorem Bits.byte_of_append {source : Bits} {before tail : List UInt8}
    (hsource : source.bytes = (before ++ tail).toArray) (i : Nat) :
    source.byte (before.length + i) = tail[i]?.getD 0 := by
  simp [Bits.byte, hsource, List.getElem?_append_right]

theorem Bits.bit_of_append {source : Bits} {before tail : List UInt8}
    (hsource : source.bytes = (before ++ tail).toArray) {i : Nat} (hi : i < 8) :
    source.bit (before.length * 8 + i) = ((tail[0]?.getD 0).toNat >>> i) % 2 := by
  have hindex : (before.length * 8 + i) / 8 = before.length := by omega
  have hshift : (before.length * 8 + i) % 8 = i := by omega
  cases tail with
  | nil => simp [Bits.bit, hindex, hsource]
  | cons byte rest => simp [Bits.bit, hindex, hshift, hsource]

theorem length_storedBlock (isLast : Bool) (bytes : List UInt8) :
    (storedBlock isLast bytes).length = bytes.length + 5 := by
  simp [storedBlock, littleEndian16]

/-- The two bytes of a block's length. -/
theorem length_of_littleEndian16 {n : Nat} (hn : n ≤ maxStored) :
    (UInt8.ofNat (n % 256)).toNat + 256 * (UInt8.ofNat (n / 256)).toNat = n := by
  have hlow : n % 256 % 2 ^ 8 = n % 256 := by omega
  have hhigh : n / 256 % 2 ^ 8 = n / 256 := by
    unfold maxStored at hn
    omega
  rw [UInt8.toNat_ofNat', UInt8.toNat_ofNat', hlow, hhigh]
  omega

/-! ## One block -/

namespace State

/-- One step reads a stored block that begins at a whole byte. -/
theorem stepBlock_stored {source : Bits} {before after bytes : List UInt8} {isLast : Bool}
    (hsource : source.bytes = (before ++ (storedBlock isLast bytes ++ after)).toArray)
    (hlength : bytes.length ≤ maxStored) {s : State} (hposition : s.position = before.length * 8) :
    s.stepBlock source = .ok
      { position := (before.length + (bytes.length + 5)) * 8
        isLast
        codes := none
        output := s.output ++ bytes.toArray } := by
  have hflags : (storedBlock isLast bytes ++ after)[0]?.getD 0 = if isLast then 1 else 0 := rfl
  have hbit (i : Nat) (hi : i < 8) := Bits.bit_of_append hsource hi
  rw [hflags] at hbit
  have hlast : (source.read s.position 1 == 1) = isLast := by
    have h0 := hbit 0 (by omega)
    rw [Nat.add_zero] at h0
    rw [hposition, Bits.read, Bits.read, h0]
    cases isLast <;> rfl
  have htype : source.read (s.position + 1) 2 = 0 := by
    rw [hposition, Bits.read, Bits.read, Bits.read, Nat.add_assoc, hbit 1 (by omega),
      hbit 2 (by omega)]
    cases isLast <;> rfl
  have hfirst : (s.position + 3 + 7) / 8 + 4 = before.length + 5 := by omega
  have hlow : source.byte (before.length + 1) = UInt8.ofNat (bytes.length % 256) := by
    rw [Bits.byte_of_append hsource]
    rfl
  have hhigh : source.byte (before.length + 2) = UInt8.ofNat (bytes.length / 256) := by
    rw [Bits.byte_of_append hsource]
    rfl
  have hsize : source.bytes.size = before.length + (bytes.length + 5) + after.length := by
    rw [hsource, List.size_toArray, List.length_append, List.length_append, length_storedBlock]
    omega
  have hbody : source.bytes.extract (before.length + 5) (before.length + 5 + bytes.length)
      = bytes.toArray := by
    rw [hsource]
    simp [storedBlock, littleEndian16, List.extract_eq_take_drop]
  have hcount := length_of_littleEndian16 hlength
  unfold stepBlock
  dsimp only
  rw [htype, hfirst, hlast, show before.length + 5 - 4 = before.length + 1 by omega,
    show before.length + 5 - 3 = before.length + 2 by omega, hlow, hhigh, hcount, hbody,
    if_neg (by omega), Nat.add_assoc, Nat.add_comm 5]
  rfl

/-! ## Whole streams -/

theorem run_of_stepBlock {source : Bits} {s next : State} (hlast : s.isLast = false)
    (hcodes : s.codes = none) (hstep : s.stepBlock source = .ok next)
    (hforward : s.position < next.position) (hinside : next.position ≤ source.size) :
    s.run source = next.run source := by
  have hend : (s.isLast && s.codes.isNone) = false := by
    rw [hlast, Bool.false_and]
  rw [run, hend, step, hcodes]
  simp only [hstep, hforward, hinside, and_self, if_true, Bool.false_eq_true, if_false]

/-- A run reads a stream of stored blocks to its end, whatever was read before. -/
theorem run_deflate (bytes : List UInt8) {source : Bits} {before : List UInt8}
    (hsource : source.bytes = (before ++ deflate bytes).toArray) {s : State}
    (hposition : s.position = before.length * 8) (hlast : s.isLast = false)
    (hcodes : s.codes = none) : s.run source = .ok (s.output ++ bytes.toArray) := by
  induction bytes using deflate.induct generalizing before s with
  | case1 bytes hshort =>
    rw [deflate, if_pos hshort] at hsource
    have hblock : source.bytes = (before ++ (storedBlock true bytes ++ [])).toArray := by
      rw [hsource, List.append_nil]
    have hstep := stepBlock_stored hblock hshort hposition
    have hsize : source.size = (before.length + (bytes.length + 5)) * 8 := by
      rw [Bits.size, hsource, List.size_toArray, List.length_append, length_storedBlock]
    rw [run_of_stepBlock hlast hcodes hstep (by dsimp only; omega) (by dsimp only; omega), run]
    rfl
  | case2 bytes hlong ih =>
    rw [deflate, if_neg hlong] at hsource
    have htake : (bytes.take maxStored).length = maxStored := by
      rw [List.length_take]
      omega
    have hstep := stepBlock_stored hsource (by omega) hposition
    have hsize : source.size = (before.length + (maxStored + 5)
        + (deflate (bytes.drop maxStored)).length) * 8 := by
      rw [Bits.size, hsource, List.size_toArray, List.length_append, List.length_append,
        length_storedBlock, htake]
      omega
    have hrest : source.bytes = ((before ++ storedBlock false (bytes.take maxStored))
        ++ deflate (bytes.drop maxStored)).toArray := by
      rw [hsource, List.append_assoc]
    rw [run_of_stepBlock hlast hcodes hstep (by dsimp only; omega) (by dsimp only; omega),
      ih hrest (by simp [length_storedBlock]) rfl rfl]
    simp

end State

/-- What `deflate` writes, `inflate` reads back. -/
theorem inflate_deflate (bytes : List UInt8) : inflate (deflate bytes) = .ok bytes := by
  have hlength : deflate bytes ≠ [] := by
    rw [deflate]
    split <;> simp [storedBlock]
  have hsource : (deflate bytes).toArray = ([] ++ deflate bytes).toArray := rfl
  have hrun : State.start.run ⟨(deflate bytes).toArray⟩ = .ok (#[] ++ bytes.toArray) :=
    State.run_deflate bytes hsource rfl rfl rfl
  rw [inflate, List.isEmpty_eq_false_iff.mpr hlength, hrun]
  simp [Except.map]

end Raster.Deflate
