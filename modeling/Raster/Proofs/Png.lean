import Raster.Scalar.Real
import Raster.Png.Image
import Raster.Proofs.Scanlines

/-!
# Images are read back

What `Png.writeWith` writes, `Png.decodeWith` reads, if the decompression
undoes the compression (`Png.decodeWith_writeWith`). The proof goes layer by
layer: the four bytes of a length, a chunk and a list of chunks
(`Chunk.readAll_flatMap_write`), the scan of the chunks, the scanlines of
the data (`Scanline.readAll_flatMap_write`), and the rows of unfiltered
bytes (`Scanline.decodeAll_scanlines`).
-/

namespace Raster.Png

/-! ## Lengths -/

@[simp] theorem length_bigEndian32 (n : Nat) : (bigEndian32 n).length = 4 := rfl

/-- Four bytes hold every number that has room in them. -/
theorem readBigEndian32_append {n : Nat} (hn : n < 4294967296) (rest : List UInt8) :
    readBigEndian32 (bigEndian32 n ++ rest) = n := by
  simp only [readBigEndian32, bigEndian32, List.cons_append, List.nil_append,
    List.getElem?_cons_zero, List.getElem?_cons_succ, Option.getD_some, UInt8.toNat_ofNat',
    Nat.shiftRight_eq_div_pow]
  omega

/-! ## Chunks -/

namespace Chunk

/-- A chunk whose parts are as long as a file has room for. -/
def Fits (c : Chunk) : Prop :=
  c.type.length = 4 ∧ c.payload.length < 4294967296 ∧ c.checksum.length = 4

theorem fits_of {type payload : List UInt8} (htype : type.length = 4)
    (hpayload : payload.length < 4294967296) : (of type payload).Fits :=
  ⟨htype, hpayload, length_bigEndian32 _⟩

theorem readAll_of_short {bytes : List UInt8} (h : bytes.length < 8) : readAll bytes = [] := by
  rw [readAll, if_pos h]

/-- A chunk that was written is read first. -/
theorem readAll_write_append {c : Chunk} (hc : c.Fits) (rest : List UInt8) :
    readAll (c.write ++ rest) = c :: readAll rest := by
  obtain ⟨htype, hpayload, hchecksum⟩ := hc
  obtain ⟨type, payload, checksum⟩ := c
  dsimp only at htype hpayload hchecksum
  generalize hbytes : Chunk.write ⟨type, payload, checksum⟩ ++ rest = bytes
  simp only [write, List.append_assoc] at hbytes
  have hlong : ¬ bytes.length < 8 := by
    rw [← hbytes, List.length_append, List.length_append, length_bigEndian32]
    omega
  have hlength : readBigEndian32 bytes = payload.length := by
    rw [← hbytes]
    exact readBigEndian32_append hpayload _
  have htail : bytes.drop 4 = type ++ (payload ++ (checksum ++ rest)) := by
    rw [← hbytes, List.drop_left' (length_bigEndian32 _)]
  have hbody : bytes.drop 8 = payload ++ (checksum ++ rest) := by
    rw [show 8 = 4 + 4 by rfl, ← List.drop_drop, htail, List.drop_left' htype]
  have hrest : bytes.drop (12 + payload.length) = rest := by
    rw [show 12 + payload.length = 8 + (payload.length + 4) by omega, ← List.drop_drop, hbody,
      ← List.drop_drop, List.drop_left, List.drop_left' hchecksum]
  rw [readAll, if_neg hlong]
  dsimp only
  rw [hlength, htail, hbody, hrest, List.take_left' htype, List.take_left, List.drop_left,
    List.take_left' hchecksum]

/-- All chunks that were written are read, in order. -/
theorem readAll_flatMap_write {chunks : List Chunk} (h : ∀ c ∈ chunks, c.Fits)
    (rest : List UInt8) :
    readAll (chunks.flatMap write ++ rest) = chunks ++ readAll rest := by
  induction chunks with
  | nil => rfl
  | cons c chunks ih =>
    rw [List.flatMap_cons, List.append_assoc, readAll_write_append (h c (List.mem_cons_self ..)),
      ih fun d hd => h d (List.mem_cons_of_mem _ hd), List.cons_append]

end Chunk

/-! ## Scanlines -/

theorem Filter.ofByte?_toByte (filter : Filter) : ofByte? filter.toByte = some filter := by
  cases filter <;> rfl

namespace Scanline

/-- Scanlines of full width that were written are read, whatever comes after them. -/
theorem readAll_flatMap_write {width : Nat} {lines : List Scanline}
    (h : ∀ line ∈ lines, line.differences.length = width) (rest : List UInt8) :
    readAll width lines.length (lines.flatMap write ++ rest) = .ok lines := by
  induction lines with
  | nil => rfl
  | cons line lines ih =>
    have hline := h line (List.mem_cons_self ..)
    have hlines := ih fun other hother => h other (List.mem_cons_of_mem _ hother)
    simp only [List.flatMap_cons, List.length_cons, write, List.cons_append, List.append_assoc,
      readAll, Filter.ofByte?_toByte, List.take_left' hline, List.drop_left' hline, hlines]
    rfl

/-- Under the filter that changes nothing a row is its differences. -/
theorem decodeFrom_none (step : Nat) (decoded above corner row : List UInt8) :
    decodeFrom .none step decoded above corner row row.length = row := by
  induction row generalizing decoded above corner with
  | nil => rfl
  | cons byte row ih =>
    simp only [List.length_cons, decodeFrom, Filter.predict, List.tail_cons, ih]
    simp

end Scanline

/-- The rows that are cut off some data are the data again. -/
theorem Scanline.decodeAll_scanlines {step width rows : Nat} {data : List UInt8}
    (hdata : data.length = width * rows) (above : List UInt8) :
    decodeAll step width above (scanlines width rows data) = data := by
  induction rows generalizing data above with
  | zero => exact (List.eq_nil_of_length_eq_zero hdata).symm
  | succ rows ih =>
    rw [Nat.mul_succ] at hdata
    have hrow : (data.take width).length = width := by
      rw [List.length_take]
      omega
    have hfirst (corner : List UInt8) :
        decodeFrom .none step [] above corner (data.take width) width = data.take width := by
      have hnone := decodeFrom_none step [] above corner (data.take width)
      rwa [hrow] at hnone
    rw [scanlines, decodeAll, decode, hfirst, ih (by rw [List.length_drop]; omega),
      List.take_append_drop]

theorem unfilter_rawOf {data : List UInt8} {width height : Nat}
    (hdata : data.length = width * height * 4) :
    unfilter (rawOf data width height) width height 4 = .ok data := by
  have hrows : data.length = width * 4 * height := by
    rw [hdata, Nat.mul_right_comm]
  have hread := Scanline.readAll_flatMap_write
    (fun line hline => length_of_mem_scanlines hrows hline) []
  rw [length_scanlines, List.append_nil] at hread
  rw [unfilter, rawOf, hread]
  exact congrArg Except.ok (Scanline.decodeAll_scanlines hrows [])

theorem length_signature : signature.length = 8 := rfl

theorem readBigEndian32_headerPayload {width : Nat} (hwidth : width < 4294967296) (height : Nat) :
    readBigEndian32 (headerPayload width height) = width := by
  rw [headerPayload, List.append_assoc]
  exact readBigEndian32_append hwidth _

theorem readBigEndian32_drop_headerPayload (width : Nat) {height : Nat}
    (hheight : height < 4294967296) :
    readBigEndian32 ((headerPayload width height).drop 4) = height := by
  rw [headerPayload, List.append_assoc, List.drop_left' (length_bigEndian32 _)]
  exact readBigEndian32_append hheight _

theorem fits_chunksOf (width height : Nat) {compressed : List UInt8}
    (hcompressed : compressed.length < 4294967296) :
    ∀ c ∈ chunksOf width height compressed, c.Fits := by
  intro c hc
  simp only [chunksOf, List.mem_cons, List.not_mem_nil, or_false] at hc
  rcases hc with rfl | rfl | rfl
  · exact Chunk.fits_of rfl (show 13 < 4294967296 by decide)
  · exact Chunk.fits_of rfl hcompressed
  · exact Chunk.fits_of rfl (show 0 < 4294967296 by decide)

/-- The scan of the chunks of a file, up to its trailer. -/
theorem foldlM_step_chunksOf {width height : Nat} (hwidth : width < 4294967296)
    (hheight : height < 4294967296) (compressed : List UInt8) :
    ((chunksOf width height compressed).takeWhile (·.type ≠ Chunk.trailer)).foldlM Scan.step
        Scan.start
      = .ok ⟨width, height, .rgba, compressed⟩ := by
  have hchunks : (chunksOf width height compressed).takeWhile (·.type ≠ Chunk.trailer)
      = [Chunk.of Chunk.header (headerPayload width height), Chunk.of Chunk.data compressed] := rfl
  have hheader : Scan.step Scan.start (Chunk.of Chunk.header (headerPayload width height))
      = .ok ⟨width, height, .rgba, []⟩ := by
    show Scan.readHeader Scan.start (headerPayload width height) = _
    rw [Scan.readHeader, readBigEndian32_headerPayload hwidth,
      readBigEndian32_drop_headerPayload _ hheight]
    rfl
  rw [hchunks, List.foldlM_cons, hheader]
  rfl

/-- An image that was written is read back, if the decompression undoes the compression. -/
theorem decodeWith_writeWith [Memory]
    {inflate : List UInt8 → Except Deflate.Error (List UInt8)}
    {deflate : List UInt8 → List UInt8} {data : List UInt8} {width height : Nat}
    (hdata : data.length = width * height * 4) (hwidth : 0 < width) (hheight : 0 < height)
    (hwidth32 : width < 4294967296) (hheight32 : height < 4294967296)
    (hinflate : inflate (deflate (rawOf data width height)) = .ok (rawOf data width height))
    (hpayload : (deflate (rawOf data width height)).length < 4294967296)
    (hroom : reserve 1 (width * height * 4) = .ok ()) :
    decodeWith inflate (writeWith deflate data width height)
      = .ok ⟨data, width, height, .rgba⟩ := by
  have hsignature : (writeWith deflate data width height).take 8 = signature :=
    List.take_left' length_signature
  have hchunks : Chunk.readAll ((writeWith deflate data width height).drop 8)
      = chunksOf width height (deflate (rawOf data width height)) := by
    have hread := Chunk.readAll_flatMap_write (fits_chunksOf width height hpayload) []
    have hnothing : ([] : List UInt8).length < 8 := by decide
    rw [Chunk.readAll_of_short hnothing, List.append_nil, List.append_nil] at hread
    rw [writeWith, file, List.drop_left' length_signature, hread]
  have himage : Scan.image ⟨width, height, .rgba, deflate (rawOf data width height)⟩
      (rawOf data width height) = .ok ⟨data, width, height, .rgba⟩ := by
    simp only [Scan.image, Layout.channels, hroom, unfilter_rawOf hdata]
    rfl
  have hsize : ¬ (width = 0 ∨ height = 0) := by omega
  simp only [decodeWith, hsignature, hchunks, foldlM_step_chunksOf hwidth32 hheight32, hsize,
    hinflate, ne_eq, not_true_eq_false, if_false, bind, Except.bind, Except.mapError, himage]

end Raster.Png
