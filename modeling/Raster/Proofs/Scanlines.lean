import Raster.Proofs.ExactNaturals
import Raster.Png.Encoding

/-!
# The rows of an image in a buffer

The writer copies the rows of an image one by one to their places in a
blank buffer. Here the buffer is told without places: it holds the rows in
order, each after its filter type (`Png.rawOf`).

`Png.exists_setRows` goes along the loop. After so many rows the buffer
holds these rows and zeros behind them. The next row leaves one zero, which
is the filter type of an unchanged row, and overwrites as many as it has
bytes. The places are worked out as scalars, so this needs the length of
the whole buffer to be a number that the scalars hold exactly; for sides of
that kind the file is `Png.writeWith` (`Png.encodeWith_of_exact`).
-/

namespace Raster.Png

/-! ## Rows -/

/-- The rows of an image, `width` bytes each, under the filter that changes nothing. -/
def scanlines (width : Nat) : (rows : Nat) → List UInt8 → List Scanline
  | 0, _ => []
  | rows + 1, data => ⟨.none, data.take width⟩ :: scanlines width rows (data.drop width)

def rawOf (data : List UInt8) (width height : Nat) : List UInt8 :=
  (scanlines (width * 4) height data).flatMap Scanline.write

/-- The file of an RGBA image of natural size under a compression. -/
def writeWith (deflate : List UInt8 → List UInt8) (data : List UInt8) (width height : Nat) :
    List UInt8 :=
  file width height (deflate (rawOf data width height))

theorem length_scanlines (width rows : Nat) (data : List UInt8) :
    (scanlines width rows data).length = rows := by
  induction rows generalizing data with
  | zero => rfl
  | succ rows ih => rw [scanlines, List.length_cons, ih]

theorem length_of_mem_scanlines {width rows : Nat} {data : List UInt8}
    (hdata : data.length = width * rows) {line : Scanline}
    (hline : line ∈ scanlines width rows data) :
    line.differences.length = width := by
  induction rows generalizing data with
  | zero => simp [scanlines] at hline
  | succ rows ih =>
    rw [Nat.mul_succ] at hdata
    rcases List.mem_cons.mp hline with rfl | hline
    · rw [List.length_take]
      omega
    · exact ih (by rw [List.length_drop]; omega) hline

/-! ## Overwriting -/

/-- As many bytes as are given are replaced, and all others stay. -/
theorem toList_setBytes {raw : Array UInt8} {front old back bytes : List UInt8}
    (hraw : raw.toList = front ++ (old ++ back)) (hlength : old.length = bytes.length) :
    (setBytes raw front.length bytes).toList = front ++ (bytes ++ back) := by
  induction bytes generalizing raw front old with
  | nil =>
    rw [List.eq_nil_of_length_eq_zero hlength] at hraw
    exact hraw
  | cons byte rest ih =>
    obtain ⟨first, old, rfl⟩ := List.exists_cons_of_length_eq_add_one hlength
    have hset : (raw.setIfInBounds front.length byte).toList
        = (front ++ [byte]) ++ (old ++ back) := by
      rw [Array.toList_setIfInBounds, hraw, List.set_append_right _ _ (Nat.le_refl _),
        Nat.sub_self, List.append_assoc]
      rfl
    have hrest := ih hset (Nat.succ.inj hlength)
    rw [List.length_append, List.append_assoc] at hrest
    exact hrest

/-- A row that is put over zeros, one of which is left, makes a scanline. -/
theorem toList_setBytes_row {raw : Array UInt8} {front row : List UInt8} {rest : Nat}
    (hraw : raw.toList = front ++ List.replicate (row.length + 1 + rest) 0) :
    (setBytes raw (front.length + 1) row).toList
      = (front ++ Scanline.write ⟨.none, row⟩) ++ List.replicate rest 0 := by
  have hzeros : raw.toList
      = (front ++ [0]) ++ (List.replicate row.length 0 ++ List.replicate rest 0) := by
    rw [hraw, Nat.add_right_comm, List.replicate_succ, List.append_assoc,
      List.replicate_append_replicate]
    rfl
  have hset := toList_setBytes hzeros List.length_replicate
  rw [List.length_append] at hset
  simp only [Scanline.write, Filter.toByte, List.append_assoc, List.cons_append, List.nil_append]
    at hset ⊢
  exact hset

/-! ## The loop over the rows -/

section
variable {α : Type} [Scalar α] {bound : Nat} (h : Scalar.ExactBelow α bound)
include h

theorem wholePart_ofNat {n : Nat} (hn : n < bound) : wholePart (Scalar.ofNat n : α) = n := by
  rw [wholePart, h.toInt hn, Int.toNat_natCast]

theorem fieldOf_ofNat {n : Nat} (hn : n < bound) (hfield : n < 4294967296) :
    fieldOf (Scalar.ofNat n : α) = n := by
  rw [fieldOf, h.toInt hn]
  omega

/-- Where a row starts in the data. -/
theorem wholePart_start {width y : Nat} (hfour : 4 < bound) (hwidth : width * 4 + 1 < bound)
    (hy : y * (width * 4 + 1) < bound) :
    wholePart (Scalar.ofNat y * (Scalar.ofNat width * 4) : α) = y * (width * 4) := by
  have hliteral : (4 : α) = Scalar.ofNat 4 := h.literal 4
  have hsplit : y * (width * 4 + 1) = y * (width * 4) + y := Nat.mul_succ ..
  rw [hliteral, h.mul (by omega) hfour (by omega), h.mul (by omega) (by omega) (by omega),
    wholePart_ofNat h (by omega)]

/-- Where a row is put: behind its filter type. -/
theorem wholePart_place {width y : Nat} (hfour : 4 < bound) (hwidth : width * 4 + 1 < bound)
    (hy : y * (width * 4 + 1) + 1 < bound) :
    wholePart (Scalar.ofNat y * (Scalar.ofNat width * 4 + 1) + 1 : α)
      = y * (width * 4 + 1) + 1 := by
  have hliteral : (4 : α) = Scalar.ofNat 4 := h.literal 4
  have hone : (1 : α) = Scalar.ofNat 1 := h.literal 1
  have hsplit : y * (width * 4 + 1) = y * (width * 4) + y := Nat.mul_succ ..
  rw [hliteral, hone, h.mul (by omega) hfour (by omega), h.add hwidth,
    h.mul (by omega) hwidth (by omega), h.add hy, wholePart_ofNat h hy]

/-- One row: the loop puts it over zeros behind what is there, and goes on with the next one. -/
theorem exists_setRows_succ {data : List UInt8} {width rows y : Nat} (hfour : 4 < bound)
    (hwidth : width * 4 + 1 < bound) (hsize : (y + (rows + 1)) * (width * 4 + 1) < bound)
    (hdata : data.length = (y + (rows + 1)) * (width * 4)) {raw : Array UInt8}
    {front : List UInt8} (hfront : front.length = y * (width * 4 + 1))
    (hraw : raw.toList = front ++ List.replicate ((rows + 1) * (width * 4 + 1)) 0) :
    ∃ row next, row = (data.drop (y * (width * 4))).take (width * 4)
      ∧ setRows data.toArray (Scalar.ofNat width : α) (rows + 1) y raw
        = setRows data.toArray (Scalar.ofNat width : α) rows (y + 1) next
      ∧ (front ++ Scanline.write ⟨.none, row⟩).length = (y + 1) * (width * 4 + 1)
      ∧ next.toList = (front ++ Scanline.write ⟨.none, row⟩)
        ++ List.replicate (rows * (width * 4 + 1)) 0 := by
  have hstride (n : Nat) : (n + 1) * (width * 4 + 1) = width * 4 + 1 + n * (width * 4 + 1) := by
    ring
  have hall : (y + (rows + 1)) * (width * 4 + 1)
      = y * (width * 4 + 1) + (width * 4 + 1) + rows * (width * 4 + 1) := by ring
  have hbytes : (y + (rows + 1)) * (width * 4)
      = y * (width * 4) + width * 4 + rows * (width * 4) := by ring
  obtain ⟨row, hrow⟩ : ∃ row, row = (data.drop (y * (width * 4))).take (width * 4) := ⟨_, rfl⟩
  have hlength : row.length = width * 4 := by
    rw [hrow, List.length_take, List.length_drop]
    omega
  have hextract : data.toArray.extract
      (wholePart (Scalar.ofNat y * (Scalar.ofNat width * 4) : α))
      (wholePart (Scalar.ofNat (y + 1) * (Scalar.ofNat width * 4) : α)) = row.toArray := by
    rw [wholePart_start h hfour hwidth (by omega),
      wholePart_start h hfour hwidth (by rw [hstride]; omega), hrow, List.extract_toArray,
      List.extract_eq_take_drop, Nat.succ_mul, Nat.add_sub_cancel_left]
  have hplace : wholePart (Scalar.ofNat y * (Scalar.ofNat width * 4 + 1) + 1 : α)
      = front.length + 1 := by
    rw [wholePart_place h hfour hwidth (by omega), hfront]
  have hzeros : raw.toList
      = front ++ List.replicate (row.length + 1 + rows * (width * 4 + 1)) 0 := by
    rw [hraw, hstride, hlength]
  have hroom : ¬ raw.size < front.length + 1 + row.length := by
    rw [← Array.length_toList, hzeros, List.length_append, List.length_replicate]
    omega
  refine ⟨row, setBytes raw (front.length + 1) row, hrow, ?next, ?length,
    toList_setBytes_row hzeros⟩
  case next =>
    rw [setRows, hextract, hplace]
    exact if_neg hroom
  case length =>
    rw [List.length_append, hfront, Scanline.write, List.length_cons, hlength, hstride,
      Nat.add_comm]

/-- From a row on, the loop puts the rows of what is left of the data behind what is there. -/
theorem exists_setRows {data : List UInt8} {width rows y : Nat} (hfour : 4 < bound)
    (hwidth : width * 4 + 1 < bound) (hsize : (y + rows) * (width * 4 + 1) < bound)
    (hdata : data.length = (y + rows) * (width * 4)) {raw : Array UInt8} {front : List UInt8}
    (hfront : front.length = y * (width * 4 + 1))
    (hraw : raw.toList = front ++ List.replicate (rows * (width * 4 + 1)) 0) :
    ∃ out, setRows data.toArray (Scalar.ofNat width : α) rows y raw = .ok out
      ∧ out.toList = front
        ++ (scanlines (width * 4) rows (data.drop (y * (width * 4)))).flatMap Scanline.write := by
  induction rows generalizing y raw front with
  | zero =>
    rw [Nat.zero_mul, List.replicate_zero] at hraw
    exact ⟨raw, rfl, hraw⟩
  | succ rows ih =>
    obtain ⟨row, next, hrow, hnext, hwritten, hrest⟩ :=
      exists_setRows_succ h hfour hwidth hsize hdata hfront hraw
    have hcount : y + 1 + rows = y + (rows + 1) := by omega
    obtain ⟨out, hout, hlist⟩ := ih (by rwa [hcount]) (by rwa [hcount]) hwritten hrest
    refine ⟨out, hnext.trans hout, ?_⟩
    rw [hlist, scanlines, List.flatMap_cons, List.append_assoc, List.drop_drop, hrow, Nat.succ_mul]

/-- All rows in a blank buffer. -/
theorem exists_setRows_blank {data : List UInt8} {width height : Nat} (hfour : 4 < bound)
    (hwidth : width * 4 + 1 < bound) (hsize : height * (width * 4 + 1) < bound)
    (hdata : data.length = width * height * 4) :
    ∃ out, setRows data.toArray (Scalar.ofNat width : α) height 0
        (Array.replicate (height * (width * 4 + 1)) 0) = .ok out
      ∧ out.toList = rawOf data width height := by
  have hrows : data.length = height * (width * 4) := by
    rw [hdata]
    ring
  have hempty : ([] : List UInt8).length = 0 * (width * 4 + 1) := (Nat.zero_mul _).symm
  obtain ⟨out, hout, hlist⟩ := exists_setRows h hfour hwidth (by rwa [Nat.zero_add])
    (by rwa [Nat.zero_add]) hempty Array.toList_replicate
  rw [Nat.zero_mul, List.drop_zero, List.nil_append] at hlist
  exact ⟨out, hout, hlist⟩

/-! ## Files -/

/-- With natural sides that a header has room for, and data of the right length, what is written
is the file of the image, if there is room for its scanlines. -/
theorem encodeWith_of_exact [Memory] (hbound : maxBytes < bound)
    (deflate : List UInt8 → List UInt8) {data : List UInt8} {width height : Nat}
    (hdata : data.length = width * height * 4) (hwidth : width < 4294967296)
    (hheight : height < 4294967296) (hsize : height * (width * 4 + 1) ≤ maxBytes) :
    encodeWith deflate data (Scalar.ofNat width : α) (Scalar.ofNat height)
      = if Memory.hasRoom (height * (width * 4 + 1)) then .ok (writeWith deflate data width height)
        else .error (.noBuffer .noRoom) := by
  have hmost : maxBytes = 9007199254740991 := rfl
  have harea : height * (width * 4 + 1) = width * height * 4 + height := by ring
  have hfour : (4 : α) = Scalar.ofNat 4 := h.literal 4
  have hone : (1 : α) = Scalar.ofNat 1 := h.literal 1
  have hsides : (Scalar.ofNat data.length == (Scalar.ofNat width * Scalar.ofNat height * 4 : α))
      = true := by
    rw [hfour, h.mul (by omega) (by omega) (by omega), h.mul (by omega) (by omega) (by omega),
      h.beq (by omega) (by omega), hdata]
    exact decide_eq_true rfl
  have hbuffer : bufferLength 1 (Scalar.ofNat height * (Scalar.ofNat width * 4 + 1) : α)
      = if Memory.hasRoom (height * (width * 4 + 1)) then .ok (height * (width * 4 + 1))
        else .error .noRoom := by
    rw [hfour, hone, h.mul (by omega) (by omega) (by omega), h.add (by omega),
      h.mul (by omega) (by omega) (by omega),
      h.bufferLength Nat.one_pos (by rwa [Nat.div_one]) (by rwa [Nat.mul_one]), Nat.mul_one]
  obtain ⟨out, hout, hlist⟩ := exists_setRows_blank h (by omega) (by omega) (by omega) hdata
  unfold encodeWith
  rw [if_pos hsides, hbuffer]
  cases Memory.hasRoom (height * (width * 4 + 1)) with
  | false => rfl
  | true =>
    rw [fieldOf_ofNat h (by omega) hwidth, fieldOf_ofNat h (by omega) hheight,
      h.natCeil? (by omega), writeWith, ← hlist]
    show (setRows data.toArray (Scalar.ofNat width : α) height 0 _ >>= _) = _
    rw [hout]
    rfl

theorem encodeWith_of_reserve [Memory] (hbound : maxBytes < bound)
    (deflate : List UInt8 → List UInt8) {data : List UInt8} {width height : Nat}
    (hdata : data.length = width * height * 4) (hwidth : width < 4294967296)
    (hheight : height < 4294967296) (hroom : reserve 1 (height * (width * 4 + 1)) = .ok ()) :
    encodeWith deflate data (Scalar.ofNat width : α) (Scalar.ofNat height)
      = .ok (writeWith deflate data width height) := by
  rw [reserve_eq_ok_iff, Nat.mul_one] at hroom
  rw [encodeWith_of_exact h hbound deflate hdata hwidth hheight hroom.1, if_pos hroom.2]

end

end Raster.Png
