import Mathlib.Data.List.MinMax
import Raster.Proofs.Png

/-!
# Unfiltering undoes filtering

Filtering is told from the bytes of the image, by column and row: each byte
is stored as its difference, modulo 256, to a prediction from the bytes to
the left, above and above on the left, where a byte outside the image
counts as 0 (`filtering`). What this gives is decoded to the image again,
and data of the right length with known filter types is what filtering
makes of the image decoded from it (`unfilter_inverts_filtering`).

The decoder predicts from what it has decoded so far. `residualsFrom` walks
over the original row in the same way, and a row is decoded from exactly
the residuals of this walk (`decodeFrom_eq_iff`), which settles both
directions at once. That the walk sees the neighbours that the positions
name is `getElem?_residuals` within a row and `getElem?_scanlinesOf` for
the rows.
-/

namespace Raster.Png

/-! ## Filtering by position -/

/-- The byte at column `x` of row `y`, in rows of `width` bytes; 0 after the end. -/
def byteAt (image : List UInt8) (width x y : ℕ) : UInt8 := image[y * width + x]?.getD 0

namespace Filter

/-- What a filter expects a byte to be, given its neighbours. For Paeth this is the first neighbour
of those nearest to left + above − corner. -/
def prediction (left above corner : UInt8) : Filter → UInt8
  | none => 0
  | sub => left
  | up => above
  | average => UInt8.ofNat ((left.toNat + above.toNat) / 2)
  | paeth =>
    let distance (n : UInt8) : ℕ := (left.toNat + above.toNat - corner.toNat - n.toNat : ℤ).natAbs
    ([left, above, corner].argmin distance).getD 0

/-- The difference that is stored for column `x` of row `y`; `step` columns make a pixel. -/
def residual (filter : Filter) (image : List UInt8) (width step x y : ℕ) : UInt8 :=
  let left := if step ≤ x then byteAt image width (x - step) y else 0
  let above := if 1 ≤ y then byteAt image width x (y - 1) else 0
  let corner := if step ≤ x ∧ 1 ≤ y then byteAt image width (x - step) (y - 1) else 0
  byteAt image width x y - filter.prediction left above corner

end Filter

/-- The filtered data of an image, each row under its filter and after the filter's type. -/
def filtering (types : List Filter) (image : List UInt8) (width step : ℕ) : List UInt8 :=
  types.zipIdx.flatMap fun (filter, y) =>
    filter.toByte :: (List.range width).map (filter.residual image width step · y)

theorem argmin_triple {α : Type} (f : α → ℕ) (a b c : α) :
    [a, b, c].argmin f =
      some (if f a ≤ f b ∧ f a ≤ f c then a else if f b ≤ f c then b else c) := by
  have hpair : [b, c].argmin f = some (if f b ≤ f c then b else c) := by
    rw [List.argmin_cons, List.argmin_singleton]
    by_cases hbc : f b ≤ f c <;> simp [hbc]
  rw [List.argmin_cons, hpair]
  by_cases hbc : f b ≤ f c
  · by_cases hab : f a ≤ f b
    · simp [hbc, hab, hab.trans hbc]
    · simp [hbc, hab]
  · by_cases hac : f a ≤ f c
    · simp [hbc, hac, hac.trans (not_le.mp hbc).le]
    · simp [hbc, hac]

theorem Filter.predict_eq_prediction (filter : Filter) (left above corner : UInt8) :
    filter.predict left above corner = filter.prediction left above corner := by
  cases filter with
  | paeth =>
    rw [prediction, argmin_triple]
    rfl
  | _ => rfl

namespace Scanline

/-! ## Rows -/

/-- The differences of the rest of a row, told in the order of `decodeFrom`: `seen` holds the bytes
before it, the last one first. -/
def residualsFrom (filter : Filter) (step : ℕ) (seen : List UInt8) :
    (above corner row : List UInt8) → List UInt8
  | _, _, [] => []
  | above, corner, byte :: row =>
    (byte - filter.predict (seen[step - 1]?.getD 0) (above.headD 0) (corner.headD 0)) ::
      residualsFrom filter step (byte :: seen) above.tail corner.tail row

/-- The differences of a row under the row `above`. -/
def residuals (filter : Filter) (step : ℕ) (above row : List UInt8) : List UInt8 :=
  residualsFrom filter step [] above (List.replicate step 0 ++ above) row

@[simp] theorem length_residualsFrom (filter : Filter) (step : ℕ)
    (seen above corner row : List UInt8) :
    (residualsFrom filter step seen above corner row).length = row.length := by
  induction row generalizing seen above corner with
  | nil => rfl
  | cons byte row ih => simp only [residualsFrom, List.length_cons, ih]

@[simp] theorem length_residuals (filter : Filter) (step : ℕ) (above row : List UInt8) :
    (residuals filter step above row).length = row.length :=
  length_residualsFrom ..

theorem length_decodeFrom (filter : Filter) (step : ℕ)
    (decoded above corner differences : List UInt8) (count : ℕ) :
    (decodeFrom filter step decoded above corner differences count).length = count := by
  induction count generalizing decoded above corner differences with
  | zero => rfl
  | succ count ih => simp only [decodeFrom, List.length_cons, ih]

theorem length_decode (line : Scanline) (step width : ℕ) (above : List UInt8) :
    (line.decode step width above).length = width :=
  length_decodeFrom ..

theorem length_decodeAll (step width : ℕ) (above : List UInt8) (lines : List Scanline) :
    (decodeAll step width above lines).length = lines.length * width := by
  induction lines generalizing above with
  | nil => simp [decodeAll]
  | cons line lines ih =>
    rw [decodeAll, List.length_append, length_decode, ih, List.length_cons, Nat.succ_mul,
      Nat.add_comm]

/-- A row is decoded from its residuals and from nothing else. -/
theorem decodeFrom_eq_iff {filter : Filter} {step : ℕ}
    {decoded above corner differences row : List UInt8} (h : differences.length = row.length) :
    decodeFrom filter step decoded above corner differences row.length = row ↔
      differences = residualsFrom filter step decoded above corner row := by
  induction row generalizing decoded above corner differences with
  | nil =>
    obtain rfl := List.eq_nil_of_length_eq_zero h
    exact ⟨fun _ => rfl, fun _ => rfl⟩
  | cons byte row ih =>
    cases differences with
    | nil => cases h
    | cons difference differences =>
      have hrest : differences.length = row.length := by simpa using h
      simp only [List.length_cons, decodeFrom, residualsFrom, List.tail_cons, List.cons.injEq]
      constructor
      · rintro ⟨hbyte, hrow⟩
        rw [hbyte] at hrow
        exact ⟨UInt8.eq_sub_iff_add_eq.mpr hbyte, (ih hrest).mp hrow⟩
      · rintro ⟨hdifference, hdifferences⟩
        have hbyte := UInt8.eq_sub_iff_add_eq.mp hdifference
        rw [hbyte]
        exact ⟨rfl, (ih hrest).mpr hdifferences⟩

theorem decode_eq_iff {line : Scanline} {step width : ℕ} {above row : List UInt8}
    (hline : line.differences.length = width) (hrow : row.length = width) :
    line.decode step width above = row ↔
      line.differences = residuals line.filter step above row := by
  subst hrow
  exact decodeFrom_eq_iff hline

/-- Column `x` of a walk: the byte on the left is taken from what was seen before. -/
theorem getElem?_residualsFrom (filter : Filter) (step : ℕ) (seen above corner row : List UInt8)
    (x : ℕ) :
    (residualsFrom filter step seen above corner row)[x]? = row[x]?.map fun byte =>
      byte - filter.predict (((row.take x).reverse ++ seen)[step - 1]?.getD 0)
        (above[x]?.getD 0) (corner[x]?.getD 0) := by
  induction row generalizing seen above corner x with
  | nil => rfl
  | cons byte row ih =>
    cases x with
    | zero => simp [residualsFrom, List.head?_eq_getElem?]
    | succ x => simp [residualsFrom, ih]

/-- Column `x` of the residuals, with each neighbour at its own place. -/
theorem getElem?_residuals {step : ℕ} (hstep : 0 < step) (filter : Filter) (above row : List UInt8)
    {x : ℕ} (hx : x < row.length) :
    (residuals filter step above row)[x]? = some (row[x]?.getD 0 - filter.predict
      (if step ≤ x then row[x - step]?.getD 0 else 0) (above[x]?.getD 0)
      (if step ≤ x then above[x - step]?.getD 0 else 0)) := by
  rw [residuals, getElem?_residualsFrom, List.append_nil]
  have hbyte : row[x]? = some (row[x]?.getD 0) := by
    rw [List.getElem?_eq_getElem hx, Option.getD_some]
  have htake : (row.take x).length = x := List.length_take_of_le hx.le
  have hleft : (row.take x).reverse[step - 1]?.getD 0 =
      if step ≤ x then row[x - step]?.getD 0 else 0 := by
    split_ifs with hinside
    · rw [List.getElem?_reverse (by omega), htake, List.getElem?_take_of_lt (by omega)]
      congr 2
      omega
    · rw [List.getElem?_eq_none (by rw [List.length_reverse]; omega), Option.getD_none]
  have hcorner : (List.replicate step 0 ++ above)[x]?.getD 0 =
      if step ≤ x then above[x - step]?.getD 0 else 0 := by
    split_ifs with hinside
    · rw [List.getElem?_append_right (by simpa using hinside), List.length_replicate]
    · rw [List.getElem?_append_left (by simpa using hinside), List.getElem?_replicate,
        if_pos (not_le.mp hinside), Option.getD_some]
  rw [hbyte, Option.map_some, hleft, hcorner, Option.getD_some]

/-! ## Images -/

/-- The scanlines of an image whose first row stands under `above`. -/
def scanlinesOf (step width : ℕ) : (above : List UInt8) → List Filter → List UInt8 → List Scanline
  | _, [], _ => []
  | above, filter :: types, image =>
    ⟨filter, residuals filter step above (image.take width)⟩ ::
      scanlinesOf step width (image.take width) types (image.drop width)

@[simp] theorem length_scanlinesOf (step width : ℕ) (above : List UInt8) (types : List Filter)
    (image : List UInt8) : (scanlinesOf step width above types image).length = types.length := by
  induction types generalizing above image with
  | nil => rfl
  | cons filter types ih => simp only [scanlinesOf, List.length_cons, ih]

@[simp] theorem map_filter_scanlinesOf (step width : ℕ) (above : List UInt8) (types : List Filter)
    (image : List UInt8) :
    (scanlinesOf step width above types image).map (·.filter) = types := by
  induction types generalizing above image with
  | nil => rfl
  | cons filter types ih => rw [scanlinesOf, List.map_cons, ih]

theorem length_of_mem_scanlinesOf {step width : ℕ} {above : List UInt8} {types : List Filter}
    {image : List UInt8} (himage : image.length = width * types.length) {line : Scanline}
    (hline : line ∈ scanlinesOf step width above types image) :
    line.differences.length = width := by
  induction types generalizing above image with
  | nil => cases hline
  | cons filter types ih =>
    rw [List.length_cons, Nat.mul_succ] at himage
    rcases List.mem_cons.mp hline with rfl | hline
    · rw [length_residuals, List.length_take]
      omega
    · exact ih (by rw [List.length_drop]; omega) hline

/-- An image is decoded from its scanlines and from nothing else. -/
theorem decodeAll_eq_iff {step width : ℕ} {above : List UInt8} {lines : List Scanline}
    {image : List UInt8} (hlines : ∀ line ∈ lines, line.differences.length = width)
    (himage : image.length = width * lines.length) :
    decodeAll step width above lines = image ↔
      lines = scanlinesOf step width above (lines.map (·.filter)) image := by
  induction lines generalizing above image with
  | nil =>
    obtain rfl := List.eq_nil_of_length_eq_zero himage
    exact ⟨fun _ => rfl, fun _ => rfl⟩
  | cons line lines ih =>
    rw [List.length_cons, Nat.mul_succ] at himage
    have hrow : (image.take width).length = width := by
      rw [List.length_take]
      omega
    have hothers : ∀ other ∈ lines, other.differences.length = width := fun other hother =>
      hlines other (List.mem_cons_of_mem _ hother)
    have hrest : (image.drop width).length = width * lines.length := by
      rw [List.length_drop]
      omega
    have hsplit : decodeAll step width above (line :: lines) = image ↔
        line.decode step width above = image.take width ∧
          decodeAll step width (image.take width) lines = image.drop width := by
      constructor
      · rintro rfl
        have hwidth := line.length_decode step width above
        rw [decodeAll, List.take_left' hwidth, List.drop_left' hwidth]
        exact ⟨rfl, rfl⟩
      · rintro ⟨hfirst, hlater⟩
        rw [decodeAll, hfirst, hlater, List.take_append_drop]
    rw [hsplit, decode_eq_iff (hlines line (List.mem_cons_self ..)) hrow, ih hothers hrest,
      List.map_cons, scanlinesOf, List.cons.injEq]
    cases line
    simp

/-! ## Positions -/

theorem getElem?_scanlinesOf (step width : ℕ) (above : List UInt8) (types : List Filter)
    (image : List UInt8) (y : ℕ) :
    (scanlinesOf step width above types image)[y]? = types[y]?.map fun filter =>
      ⟨filter, residuals filter step
        (if y = 0 then above else (image.drop ((y - 1) * width)).take width)
        ((image.drop (y * width)).take width)⟩ := by
  induction types generalizing above image y with
  | nil => rfl
  | cons filter types ih =>
    cases y with
    | zero => simp [scanlinesOf]
    | succ y =>
      have hdrop (y : ℕ) : (image.drop width).drop (y * width) = image.drop ((y + 1) * width) := by
        rw [List.drop_drop, Nat.succ_mul, Nat.add_comm]
      rw [scanlinesOf, List.getElem?_cons_succ, List.getElem?_cons_succ, ih, hdrop, hdrop]
      cases y with
      | zero => simp
      | succ y => simp

/-- A row's residuals are those of its columns. -/
theorem residuals_eq_map {step width y : ℕ} (hstep : 0 < step) {image : List UInt8}
    (hrow : (y + 1) * width ≤ image.length) (filter : Filter) :
    residuals filter step (if y = 0 then [] else (image.drop ((y - 1) * width)).take width)
        ((image.drop (y * width)).take width) =
      (List.range width).map (filter.residual image width step · y) := by
  rw [Nat.succ_mul] at hrow
  have hlength : ((image.drop (y * width)).take width).length = width := by
    rw [List.length_take, List.length_drop]
    omega
  have hbyte {x : ℕ} (hx : x < width) (row : ℕ) :
      ((image.drop (row * width)).take width)[x]?.getD 0 = byteAt image width x row := by
    rw [List.getElem?_take_of_lt hx, List.getElem?_drop, byteAt]
  refine List.ext_getElem? fun x => ?_
  by_cases hx : x < width
  · rw [getElem?_residuals hstep _ _ _ (by rwa [hlength]), List.getElem?_map,
      List.getElem?_range hx, Option.map_some, Filter.residual, Filter.predict_eq_prediction,
      hbyte hx, hbyte (by omega)]
    by_cases hy : y = 0
    · simp [hy]
    · simp only [if_neg hy, Nat.one_le_iff_ne_zero.mpr hy, if_true, and_true, hbyte hx,
        hbyte (show x - step < width by omega)]
  · rw [List.getElem?_eq_none (by rw [length_residuals, hlength]; omega),
      List.getElem?_eq_none (by rw [List.length_map, List.length_range]; omega)]

theorem filtering_eq_flatMap_write {step width : ℕ} (hstep : 0 < step) {types : List Filter}
    {image : List UInt8} (himage : image.length = width * types.length) :
    filtering types image width step =
      (scanlinesOf step width [] types image).flatMap write := by
  have hlines : scanlinesOf step width [] types image = types.zipIdx.map fun (filter, y) =>
      ⟨filter, (List.range width).map (filter.residual image width step · y)⟩ := by
    refine List.ext_getElem? fun y => ?_
    rw [getElem?_scanlinesOf, List.getElem?_map, List.getElem?_zipIdx, Option.map_map]
    refine Option.map_congr fun filter hfilter => ?_
    obtain ⟨hy, -⟩ := List.getElem?_eq_some_iff.mp hfilter
    have hrow : (y + 1) * width ≤ image.length := by
      rw [himage, Nat.mul_comm]
      exact Nat.mul_le_mul_left width hy
    simp [residuals_eq_map hstep hrow]
  rw [hlines, List.flatMap_map, filtering]
  rfl

/-! ## Raw data -/

theorem exists_filter_of_le {type : UInt8} (h : type ≤ 4) :
    ∃ filter : Filter, filter.toByte = type := by
  obtain rfl | rfl | rfl | rfl | rfl : type = 0 ∨ type = 1 ∨ type = 2 ∨ type = 3 ∨ type = 4 := by
    simp only [← UInt8.toNat_inj, UInt8.le_iff_toNat_le] at h ⊢
    simp at h ⊢
    omega
  · exact ⟨.none, rfl⟩
  · exact ⟨.sub, rfl⟩
  · exact ⟨.up, rfl⟩
  · exact ⟨.average, rfl⟩
  · exact ⟨.paeth, rfl⟩

/-- Data of the right length with known filter types is made of scanlines. -/
theorem exists_flatMap_write {width rows : ℕ} {raw : List UInt8}
    (hraw : raw.length = rows * (width + 1))
    (htypes : ∀ y < rows, ∃ type ≤ 4, raw[y * (width + 1)]? = some type) :
    ∃ lines : List Scanline, lines.length = rows ∧
      (∀ line ∈ lines, line.differences.length = width) ∧
      (∀ y < rows, raw[y * (width + 1)]? = lines[y]?.map (·.filter.toByte)) ∧
      lines.flatMap write = raw := by
  induction rows generalizing raw with
  | zero =>
    rw [Nat.zero_mul] at hraw
    exact ⟨[], rfl, by simp, by simp, (List.eq_nil_of_length_eq_zero hraw).symm⟩
  | succ rows ih =>
    rw [Nat.succ_mul] at hraw
    cases raw with
    | nil => simp at hraw
    | cons type rest =>
      rw [List.length_cons] at hraw
      have hnext (y : ℕ) : (type :: rest)[(y + 1) * (width + 1)]? =
          (rest.drop width)[y * (width + 1)]? := by
        rw [Nat.succ_mul, ← Nat.add_assoc, List.getElem?_cons_succ, List.getElem?_drop,
          Nat.add_comm]
      obtain ⟨_, hle, htype⟩ := htypes 0 (Nat.succ_pos rows)
      obtain rfl : type = _ := by simpa using htype
      obtain ⟨filter, rfl⟩ := exists_filter_of_le hle
      obtain ⟨lines, hcount, hlengths, hfilters, hwrite⟩ :=
        @ih (rest.drop width) (by rw [List.length_drop]; omega) fun y hy => by
          rw [← hnext]
          exact htypes (y + 1) (Nat.succ_lt_succ hy)
      refine ⟨⟨filter, rest.take width⟩ :: lines, by rw [List.length_cons, hcount], ?_, ?_, ?_⟩
      · rintro line (_ | ⟨_, hline⟩)
        · rw [List.length_take]
          omega
        · exact hlengths line hline
      · intro y hy
        cases y with
        | zero => simp
        | succ y => rw [hnext, List.getElem?_cons_succ, hfilters y (Nat.lt_of_succ_lt_succ hy)]
      · rw [List.flatMap_cons, hwrite, write, List.cons_append, List.take_append_drop]

end Scanline

theorem unfilter_flatMap_write {width channels : ℕ} {lines : List Scanline}
    (hlines : ∀ line ∈ lines, line.differences.length = width * channels) :
    unfilter (lines.flatMap Scanline.write) width lines.length channels =
      .ok (Scanline.decodeAll channels (width * channels) [] lines) := by
  have hread := Scanline.readAll_flatMap_write hlines []
  rw [List.append_nil] at hread
  rw [unfilter, hread]
  rfl

/-- What filtering an image gives is decoded to the image. -/
theorem unfilter_filtering {width channels : ℕ} (hchannels : 0 < channels) {types : List Filter}
    {image : List UInt8} (himage : image.length = width * types.length * channels) :
    unfilter (filtering types image (width * channels) channels) width types.length channels =
      .ok image := by
  have hrows : image.length = width * channels * types.length := by
    rw [himage, Nat.mul_right_comm]
  generalize hlines : Scanline.scanlinesOf channels (width * channels) [] types image = lines
  have hcount : lines.length = types.length := by rw [← hlines, Scanline.length_scanlinesOf]
  have hwidths : ∀ line ∈ lines, line.differences.length = width * channels := by
    intro line hline
    rw [← hlines] at hline
    exact Scanline.length_of_mem_scanlinesOf hrows hline
  have hdecode : Scanline.decodeAll channels (width * channels) [] lines = image := by
    refine (Scanline.decodeAll_eq_iff hwidths (by rw [hcount, hrows])).mpr ?_
    rw [← hlines, Scanline.map_filter_scanlinesOf]
  rw [Scanline.filtering_eq_flatMap_write hchannels hrows, hlines, ← hcount,
    unfilter_flatMap_write hwidths, hdecode]

/-- Scanlines are the filtering of the image that they are decoded to. -/
theorem filtering_decodeAll {width channels : ℕ} (hchannels : 0 < channels)
    {lines : List Scanline}
    (hlines : ∀ line ∈ lines, line.differences.length = width * channels) :
    filtering (lines.map (·.filter))
        (Scanline.decodeAll channels (width * channels) [] lines) (width * channels) channels =
      lines.flatMap Scanline.write := by
  have himage : (Scanline.decodeAll channels (width * channels) [] lines).length =
      width * channels * lines.length := by
    rw [Scanline.length_decodeAll, Nat.mul_comm]
  have hback := (Scanline.decodeAll_eq_iff hlines himage).mp rfl
  rw [Scanline.filtering_eq_flatMap_write hchannels (by rw [himage, List.length_map]), ← hback]

/-- Unfiltering is the inverse of filtering, in both directions: what filtering an image gives is
decoded to the image, and data of the right length with known filter types is the filtering, with
these types, of the image that it is decoded to. -/
theorem unfilter_inverts_filtering {channels : ℕ} (hchannels : 0 < channels) (width height : ℕ) :
    (∀ (types : List Filter) (image : List UInt8), types.length = height →
      image.length = width * height * channels →
      unfilter (filtering types image (width * channels) channels) width height channels =
        .ok image) ∧
    ∀ raw : List UInt8, raw.length = height * (width * channels + 1) →
      (∀ y < height, ∃ type ≤ 4, raw[y * (width * channels + 1)]? = some type) →
      ∃ (types : List Filter) (image : List UInt8),
        unfilter raw width height channels = .ok image ∧
        image.length = width * height * channels ∧ types.length = height ∧
        (∀ y < height, raw[y * (width * channels + 1)]? = types[y]?.map Filter.toByte) ∧
        filtering types image (width * channels) channels = raw := by
  constructor
  · rintro types image rfl himage
    exact unfilter_filtering hchannels himage
  · intro raw hraw htypes
    obtain ⟨lines, rfl, hwidths, hfilters, rfl⟩ := Scanline.exists_flatMap_write hraw htypes
    refine ⟨lines.map (·.filter), _, unfilter_flatMap_write hwidths, ?_, List.length_map .., ?_,
      filtering_decodeAll hchannels hwidths⟩
    · rw [Scanline.length_decodeAll, Nat.mul_comm, Nat.mul_right_comm]
    · intro y hy
      rw [hfilters y hy, List.getElem?_map, Option.map_map]
      rfl

/-- Two rows of two bytes, averaged and under Paeth: filtered and back, and read and filtered. -/
theorem unfilter_inverts_filtering_two_rows :
    0 < 1 ∧
    unfilter (filtering [.average, .paeth] [10, 20, 30, 4] 2 1) 2 2 1 = .ok [10, 20, 30, 4] ∧
    ∃ (types : List Filter) (image : List UInt8),
      unfilter [3, 10, 15, 4, 20, 240] 2 2 1 = .ok image ∧
      filtering types image 2 1 = [3, 10, 15, 4, 20, 240] := by
  refine ⟨by decide, (unfilter_inverts_filtering (by decide) 2 2).1 _ _ rfl rfl, ?_⟩
  obtain ⟨types, image, hread, -, -, -, hfilter⟩ :=
    (@unfilter_inverts_filtering 1 (by decide) 2 2).2 [3, 10, 15, 4, 20, 240] rfl fun
      | 0, _ => ⟨3, by decide, rfl⟩
      | 1, _ => ⟨4, by decide, rfl⟩
  exact ⟨types, image, hread, hfilter⟩

end Raster.Png
