import Raster.Proofs.Checksum
import Raster.Proofs.PngRoundTrip

/-!
# What is written

The file of an image is described here without its reader: the signature,
then three chunks, each with its length and its checksum in four bytes,
the highest first (`IsChunk`). The header says eight bits of RGBA, and what
the data recover are the rows of the image, each after a filter type of 0
(`IsFile`).

What is written is such a file (`encode_writes_files`). The reader looks at
no checksum, so nothing about checksums follows from reading files back;
that they are right is `toBitVec_crc32`.
-/

namespace Raster.Png

/-! ## The format -/

/-- The number that some bytes stand for, the highest first. -/
def valueOf (bytes : List UInt8) : ℕ := Nat.ofDigits 256 (bytes.reverse.map UInt8.toNat)

/-- A number in four bytes. -/
def IsField (n : ℕ) (bytes : List UInt8) : Prop := bytes.length = 4 ∧ valueOf bytes = n

def ascii (text : String) : List UInt8 := text.toList.map fun c => UInt8.ofNat c.toNat

/-- The length of the payload, the type, the payload, and the checksum of type and payload. -/
def IsChunk (type : String) (payload bytes : List UInt8) : Prop :=
  ∃ length checksum, bytes = length ++ ascii type ++ payload ++ checksum
    ∧ IsField payload.length length
    ∧ IsField (crcOfBits ((ascii type ++ payload).flatMap bitsOf)).toNat checksum

/-- Eight bits per channel, RGBA, and the only methods of compression, filtering and interlacing
that there are without interlacing. -/
def IsHeader (width height : ℕ) (payload : List UInt8) : Prop :=
  ∃ first second, payload = first ++ second ++ [8, 6, 0, 0, 0]
    ∧ IsField width first ∧ IsField height second

/-- The rows of an image, `width` bytes each, each after a filter type of 0. -/
def unfilteredRows (width height : ℕ) (data : List UInt8) : List UInt8 :=
  (List.range height).flatMap fun y => 0 :: (data.drop (y * width)).take width

/-- The file of an RGBA image whose data `inflate` recovers. -/
def IsFile (inflate : List UInt8 → Except Deflate.Error (List UInt8)) (data : List UInt8)
    (width height : ℕ) (bytes : List UInt8) : Prop :=
  ∃ header compressed first second third,
    bytes = [137] ++ ascii "PNG" ++ [13, 10, 26, 10] ++ first ++ second ++ third
    ∧ IsChunk "IHDR" header first ∧ IsHeader width height header
    ∧ IsChunk "IDAT" compressed second
    ∧ inflate compressed = .ok (unfilteredRows (width * 4) height data)
    ∧ IsChunk "IEND" [] third

/-! ## Parts of a file -/

theorem signature_eq : signature = [137] ++ ascii "PNG" ++ [13, 10, 26, 10] := rfl

theorem header_eq : Chunk.header = ascii "IHDR" := rfl

theorem data_eq : Chunk.data = ascii "IDAT" := rfl

theorem trailer_eq : Chunk.trailer = ascii "IEND" := rfl

theorem isField_bigEndian32 {n : ℕ} (hn : n < 2 ^ 32) : IsField n (bigEndian32 n) := by
  refine ⟨rfl, ?_⟩
  simp only [valueOf, bigEndian32, List.reverse_cons, List.reverse_nil, List.nil_append,
    List.cons_append, List.map_cons, List.map_nil, Nat.ofDigits_cons, Nat.ofDigits_nil,
    UInt8.toNat_ofNat', Nat.shiftRight_eq_div_pow]
  omega

theorem isChunk_write {type : String} {payload : List UInt8} (hpayload : payload.length < 2 ^ 32) :
    IsChunk type payload (Chunk.of (ascii type) payload).write := by
  refine ⟨bigEndian32 payload.length, Chunk.checksumOf (ascii type) payload, rfl,
    isField_bigEndian32 hpayload, ?_⟩
  rw [Chunk.checksumOf, ← toBitVec_crc32, UInt32.toNat_toBitVec]
  exact isField_bigEndian32 (UInt32.toNat_lt _)

theorem isHeader_headerPayload {width height : ℕ} (hwidth : width < 2 ^ 32)
    (hheight : height < 2 ^ 32) : IsHeader width height (headerPayload width height) :=
  ⟨_, _, rfl, isField_bigEndian32 hwidth, isField_bigEndian32 hheight⟩

theorem flatMap_write_scanlines (width height : ℕ) (data : List UInt8) :
    (scanlines width height data).flatMap Scanline.write = unfilteredRows width height data := by
  induction height generalizing data with
  | zero => rfl
  | succ height ih =>
    have hrest (y : ℕ) : (data.drop width).drop (y * width) = data.drop ((y + 1) * width) := by
      rw [List.drop_drop, Nat.succ_mul, Nat.add_comm]
    rw [scanlines, List.flatMap_cons, ih, unfilteredRows, unfilteredRows, List.range_succ_eq_map,
      List.flatMap_cons, List.flatMap_map]
    simp only [hrest, Nat.zero_mul, List.drop_zero]
    rfl

theorem isFile_writeWith {inflate : List UInt8 → Except Deflate.Error (List UInt8)}
    {deflate : List UInt8 → List UInt8} (hinverse : ∀ raw, inflate (deflate raw) = .ok raw)
    {data : List UInt8} {width height : ℕ} (hwidth : width < 2 ^ 32) (hheight : height < 2 ^ 32)
    (hpayload : (deflate (unfilteredRows (width * 4) height data)).length < 2 ^ 32) :
    IsFile inflate data width height (writeWith deflate data width height) := by
  have hrows : rawOf data width height = unfilteredRows (width * 4) height data :=
    flatMap_write_scanlines ..
  refine ⟨headerPayload width height, deflate (rawOf data width height), _, _, _, ?bytes,
    isChunk_write (show 13 < 2 ^ 32 by decide), isHeader_headerPayload hwidth hheight,
    isChunk_write (by rwa [hrows]), by rw [hinverse, hrows], isChunk_write (by decide)⟩
  case bytes =>
    rw [writeWith, file, chunksOf, signature_eq, header_eq, data_eq, trailer_eq]
    simp only [List.flatMap_cons, List.flatMap_nil, List.append_nil, List.append_assoc]

/-! ## Writing -/

/-- An image with the right number of bytes is written to a file of the format, and refused only
if its scanlines get no buffer. The checksums in it are those by bits, of all messages and whether
the register has a sign or not. The data are no longer than a buffer can be. -/
theorem encode_writes_files [Memory] {inflate : List UInt8 → Except Deflate.Error (List UInt8)}
    {deflate : List UInt8 → List UInt8} (hinverse : ∀ raw, inflate (deflate raw) = .ok raw)
    {data : List UInt8} {width height : ℕ} (hlength : data.length ≤ maxBytes)
    (hdata : data.length = width * height * 4) (hwidth : width < 2 ^ 32) (hheight : height < 2 ^ 32)
    (hpayload : (deflate (unfilteredRows (width * 4) height data)).length < 2 ^ 32) :
    (reserve 1 (height * (width * 4 + 1)) = .ok () →
        ∃ png, encodeWith deflate data (Float.ofNat width) (Float.ofNat height) = .ok png
          ∧ IsFile inflate data width height png)
    ∧ (∀ png, encodeWith deflate data (Float.ofNat width) (Float.ofNat height) = .ok png →
        IsFile inflate data width height png)
    ∧ (∀ e, encodeWith deflate data (Float.ofNat width) (Float.ofNat height) = .error e →
        reserve 1 (height * (width * 4 + 1)) ≠ .ok () ∧ ∃ reason, e = .noBuffer reason)
    ∧ ∀ bytes, (crc32 bytes).toBitVec = crcOfBits (bytes.flatMap bitsOf)
        ∧ crc32Signed bytes = crc32 bytes := by
  have hfile := isFile_writeWith hinverse hwidth hheight hpayload
  have hwritten (hroom : reserve 1 (height * (width * 4 + 1)) = .ok ()) :
      encodeWith deflate data (Float.ofNat width) (Float.ofNat height)
        = .ok (writeWith deflate data width height) :=
    encodeWith_of_reserve Scalar.exactBelow_float (by decide) deflate hdata hwidth hheight hroom
  have hrefused := exists_noBuffer deflate hlength hwidth hheight hdata
  refine ⟨fun hroom => ⟨_, hwritten hroom, hfile⟩, ?written, ?refused,
    fun bytes => ⟨toBitVec_crc32 bytes, crc32Signed_eq bytes⟩⟩
  case written =>
    intro png hpng
    by_cases hroom : reserve 1 (height * (width * 4 + 1)) = .ok ()
    · rw [hwritten hroom] at hpng
      cases hpng
      exact hfile
    · obtain ⟨e, he⟩ := hrefused hroom
      rw [he] at hpng
      cases hpng
  case refused =>
    intro e he
    have hroom : reserve 1 (height * (width * 4 + 1)) ≠ .ok () := by
      intro hroom
      rw [hwritten hroom] at he
      cases he
    obtain ⟨reason, hreason⟩ := hrefused hroom
    rw [hreason] at he
    cases he
    exact ⟨hroom, reason, rfl⟩

/-- One pixel over another, in stored blocks. -/
theorem encode_writes_files_two_rows :
    letI : Memory := .unbounded
    let data : List UInt8 := [1, 2, 3, 4, 5, 6, 7, 8]
    data.length = 1 * 2 * 4
      ∧ (Deflate.deflate (unfilteredRows (1 * 4) 2 data)).length < 2 ^ 32
      ∧ ∃ png, encodeWith Deflate.deflate data (Float.ofNat 1) (Float.ofNat 2) = .ok png
        ∧ IsFile Deflate.inflate data 1 2 png := by
  let _ : Memory := .unbounded
  intro data
  have hpayload : (Deflate.deflate (unfilteredRows (1 * 4) 2 data)).length < 2 ^ 32 := by
    rw [Deflate.deflate, if_pos (by decide), Deflate.length_storedBlock]
    decide
  obtain ⟨hroom, -⟩ := encode_writes_files Deflate.inflate_deflate
    (show data.length ≤ maxBytes by decide) (show data.length = 1 * 2 * 4 from rfl)
    (show 1 < 2 ^ 32 by decide) (show 2 < 2 ^ 32 by decide) hpayload
  exact ⟨rfl, hpayload, hroom rfl⟩

end Raster.Png
