import Raster.Proofs.ChunkContent
import Raster.Proofs.WholeNumbers

/-!
# Written images are read back

Writing an image takes its size as two floats, and works out from them the
length of the pixel data, that of the scanlines, and the place of each row.
For natural sides that a header can hold all of this is exact, or so large
that rounding does not matter (`ofNat_beq_size`, `large_mul`). So an image
is refused for the length of its data (`encodeWith_of_length_ne`) or
because its scanlines get no buffer (`exists_noBuffer`), and is written
otherwise (`encodeWith_of_reserve`). Reading gives back what was written,
or misses a header if a side is zero (`decode_encode`).
-/

namespace Raster.Png

open Binary64

/-! ## Sizes that are floats -/

/-- The test of the length of the data is exact, also for sides whose product is rounded. -/
theorem ofNat_beq_size {n width height : Nat} (hn : n ≤ maxBytes) (hwidth : width < 2 ^ 32)
    (hheight : height < 2 ^ 32) :
    (Float.ofNat n == Float.ofNat width * Float.ofNat height * Float.ofNat 4)
      = decide (n = width * height * 4) := by
  have hn : n < 2 ^ 53 := hn.trans_lt (by decide)
  rcases Nat.lt_or_ge (width * height * 4) (2 ^ 53) with hsmall | hlarge
  · rw [ofNat_mul (by omega) (by omega) (by omega), ofNat_mul (by omega) (by omega) hsmall,
      ofNat_beq hn hsmall]
  · rw [(large_mul_four hwidth hheight hlarge).ofNat_beq hn, decide_eq_false (by omega)]

section
variable [Memory] (deflate : List UInt8 → List UInt8) {data : List UInt8} {width height : Nat}
  (hlength : data.length ≤ maxBytes) (hwidth : width < 2 ^ 32) (hheight : height < 2 ^ 32)

include hlength hwidth hheight in
theorem encodeWith_of_length_ne (hdata : data.length ≠ width * height * 4) :
    encodeWith deflate data (Float.ofNat width) (Float.ofNat height)
      = .error (.sizeMismatch data.length (Float.ofNat width) (Float.ofNat height)) := by
  have htest := ofNat_beq_size hlength hwidth hheight
  rw [decide_eq_false hdata] at htest
  exact if_neg (Bool.eq_false_iff.mp htest)

include hlength hwidth hheight in
/-- Data of the right length whose scanlines get no buffer. -/
theorem exists_noBuffer (hdata : data.length = width * height * 4)
    (hroom : reserve 1 (height * (width * 4 + 1)) ≠ .ok ()) :
    ∃ e, encodeWith deflate data (Float.ofNat width) (Float.ofNat height)
      = .error (.noBuffer e) := by
  rcases Nat.lt_or_ge maxBytes (height * (width * 4 + 1)) with hlong | hcounted
  · have hlarge : Large (Float.ofNat height * (Float.ofNat width * 4 + 1)) := by
      have hrow : Float.ofNat width * 4 + 1 = Float.ofNat (width * 4 + 1) := by
        rw [← ofNat_add (by omega), ← ofNat_mul (by omega) (by decide) (by omega)]
        rfl
      rw [hrow]
      exact large_mul (by omega) (by omega) hlong
    have hrefused : bufferLength 1 (Float.ofNat height * (Float.ofNat width * 4 + 1))
        = .error (.badLength (Float.ofNat height * (Float.ofNat width * 4 + 1))) :=
      if_pos (Or.inr hlarge.ofNat_le)
    have htest : (Scalar.ofNat data.length == Float.ofNat width * Float.ofNat height * 4) = true :=
      (ofNat_beq_size hlength hwidth hheight).trans (decide_eq_true hdata)
    refine ⟨.badLength (Float.ofNat height * (Float.ofNat width * 4 + 1)), ?_⟩
    unfold encodeWith
    rw [if_pos htest, hrefused]
    rfl
  · refine ⟨.noRoom, (encodeWith_of_exact Scalar.exactBelow_float (by decide) deflate hdata hwidth
      hheight hcounted).trans (if_neg fun hfits => hroom ?_)⟩
    rw [reserve_eq_ok_iff, Nat.mul_one]
    exact ⟨hcounted, hfits⟩

end

/-! ## Files that miss a header -/

theorem writeWith_eq_fileOf (deflate : List UInt8 → List UInt8) (data : List UInt8)
    (width height : Nat) :
    writeWith deflate data width height
      = fileOf (chunksOf width height (deflate (rawOf data width height))) [] := by
  rw [fileOf, List.append_nil]
  rfl

/-- A side of length zero counts as if there were no header. -/
theorem decodeWith_writeWith_of_zero [Memory]
    (inflate : List UInt8 → Except Deflate.Error (List UInt8))
    {deflate : List UInt8 → List UInt8} {data : List UInt8} {width height : Nat}
    (hzero : width = 0 ∨ height = 0) (hwidth : width < 2 ^ 32) (hheight : height < 2 ^ 32)
    (hpayload : (deflate (rawOf data width height)).length < 2 ^ 32) :
    decodeWith inflate (writeWith deflate data width height) = .error .missingHeader := by
  have hcontent (compressed : List UInt8) :
      Content.of (chunksOf width height compressed)
        = ⟨[headerPayload width height], compressed ++ []⟩ := rfl
  have hformat : unsupported (headerPayload width height) = false := rfl
  have hsize : readBigEndian32 (headerPayload width height) = 0
      ∨ readBigEndian32 ((headerPayload width height).drop 4) = 0 := by
    rwa [readBigEndian32_headerPayload hwidth, readBigEndian32_drop_headerPayload _ hheight]
  rw [writeWith_eq_fileOf, decodeWith_fileOf inflate ⟨fits_chunksOf _ _ hpayload, Or.inl rfl⟩,
    hcontent, Content.read, List.find?_cons_of_neg (by rw [hformat]; decide), List.find?_nil]
  exact if_pos hsize

/-- Images are refused exactly for the length of their data, and read back if they are not empty.
The data are no longer than a buffer can be, and buffers are taken for granted: that of the
scanlines, where there are any to write, and that of the image which is read. -/
theorem decode_encode [Memory] {inflate : List UInt8 → Except Deflate.Error (List UInt8)}
    {deflate : List UInt8 → List UInt8} (hinverse : ∀ raw, inflate (deflate raw) = .ok raw)
    {data : List UInt8} {width height : Nat} (hlength : data.length ≤ maxBytes)
    (hwidth : width < 2 ^ 32) (hheight : height < 2 ^ 32)
    (hroom : data.length = width * height * 4 →
      reserve 1 (height * (width * 4 + 1)) = .ok ()) :
    ((∃ e, encodeWith deflate data (Float.ofNat width) (Float.ofNat height) = .error e)
        ↔ data.length ≠ width * height * 4)
    ∧ (data.length ≠ width * height * 4 →
        encodeWith deflate data (Float.ofNat width) (Float.ofNat height)
          = .error (.sizeMismatch data.length (Float.ofNat width) (Float.ofNat height)))
    ∧ (0 < width → 0 < height → data.length = width * height * 4 →
        ∃ png, encodeWith deflate data (Float.ofNat width) (Float.ofNat height) = .ok png
          ∧ ((deflate (rawOf data width height)).length < 2 ^ 32 →
              reserve 1 (width * height * 4) = .ok () →
              decodeWith inflate png = .ok ⟨data, width, height, .rgba⟩))
    ∧ (width = 0 ∨ height = 0 → data = [] →
        ∃ png, encodeWith deflate data (Float.ofNat width) (Float.ofNat height) = .ok png
          ∧ ((deflate (rawOf data width height)).length < 2 ^ 32 →
              decodeWith inflate png = .error .missingHeader)) := by
  have hwritten (hdata : data.length = width * height * 4) :
      encodeWith deflate data (Float.ofNat width) (Float.ofNat height)
        = .ok (writeWith deflate data width height) :=
    encodeWith_of_reserve Scalar.exactBelow_float (by decide) deflate hdata hwidth hheight
      (hroom hdata)
  have hrefused := encodeWith_of_length_ne deflate hlength hwidth hheight
  refine ⟨⟨?throws, fun hdata => ⟨_, hrefused hdata⟩⟩, hrefused, ?positive, ?zero⟩
  case throws =>
    rintro ⟨e, he⟩ hdata
    rw [hwritten hdata] at he
    cases he
  case positive =>
    intro hpositive hpositive' hdata
    refine ⟨_, hwritten hdata, fun hpayload himage => ?_⟩
    exact decodeWith_writeWith hdata hpositive hpositive' hwidth hheight (hinverse _) hpayload
      himage
  case zero =>
    intro hzero hempty
    have hdata : data.length = width * height * 4 := by
      rcases hzero with rfl | rfl <;> simp [hempty]
    exact ⟨_, hwritten hdata, decodeWith_writeWith_of_zero inflate hzero hwidth hheight⟩

/-- Two pixels are written and read back, one byte too few is refused, and an image without rows
is written but not read. -/
theorem decode_encode_pixels :
    letI : Memory := .unbounded
    (∃ png, encode [1, 2, 3, 4, 5, 6, 7, 8] (Float.ofNat 2) (Float.ofNat 1) = .ok png
      ∧ decode png = .ok ⟨[1, 2, 3, 4, 5, 6, 7, 8], 2, 1, .rgba⟩)
    ∧ encode [1, 2, 3, 4, 5, 6, 7] (Float.ofNat 2) (Float.ofNat 1)
        = .error (.sizeMismatch 7 (Float.ofNat 2) (Float.ofNat 1))
    ∧ ∃ png, encode [] (Float.ofNat 2) (Float.ofNat 0) = .ok png
        ∧ decode png = .error .missingHeader := by
  let _ : Memory := .unbounded
  have hpayload : (Deflate.deflate (rawOf [1, 2, 3, 4, 5, 6, 7, 8] 2 1)).length < 2 ^ 32 := by
    rw [Deflate.deflate, if_pos (by decide), Deflate.length_storedBlock]
    decide
  have hnothing : (Deflate.deflate (rawOf [] 2 0)).length < 2 ^ 32 := by
    rw [Deflate.deflate, if_pos (by decide), Deflate.length_storedBlock]
    decide
  obtain ⟨-, -, hread, -⟩ := decode_encode Deflate.inflate_deflate
    (show [1, 2, 3, 4, 5, 6, 7, 8].length ≤ maxBytes by decide) (show 2 < 2 ^ 32 by decide)
    (show 1 < 2 ^ 32 by decide) (fun _ => rfl)
  obtain ⟨-, hrefused, -, -⟩ := decode_encode Deflate.inflate_deflate
    (show [1, 2, 3, 4, 5, 6, 7].length ≤ maxBytes by decide) (show 2 < 2 ^ 32 by decide)
    (show 1 < 2 ^ 32 by decide) (fun _ => rfl)
  obtain ⟨-, -, -, hmissing⟩ := decode_encode Deflate.inflate_deflate
    (show [].length ≤ maxBytes by decide) (show 2 < 2 ^ 32 by decide) (show 0 < 2 ^ 32 by decide)
    (fun _ => rfl)
  obtain ⟨png, hpng, hdecode⟩ := hread (by decide) (by decide) rfl
  obtain ⟨empty, hempty, herror⟩ := hmissing (Or.inr rfl) rfl
  exact ⟨⟨png, hpng, hdecode hpayload rfl⟩, hrefused (by decide), empty, hempty, herror hnothing⟩

end Raster.Png
