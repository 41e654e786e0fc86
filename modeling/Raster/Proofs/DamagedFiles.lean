import Raster.Proofs.Atlas
import Raster.Proofs.Options
import Raster.Proofs.PngRoundTrip
import Raster.Proofs.Texture
import Raster.Proofs.Unfiltering

/-!
# Damaged files

What becomes of bytes that nobody wrote as an image. A chunk may claim any
length, a header may be cut off, the scanlines may be too short, and each
of these runs through the same loops as a sound file does.

The walk over the chunks is told by positions in the file (`Walk`). Every
chunk it comes by moves it on by twelve bytes at least, so from anywhere in
any file there is one walk, and it is the one that is read (`walk_iff`).
Whatever a file is decoded to is as large as its header says
(`WellFormed.of_decodeWith`), and so every image has a texture.

Scanlines are read row by row, and the first row whose filter type is
missing or unknown is what an error names (`Scanline.readAll_eq_error_iff`).
Without one, a byte whose difference is missing is 0 and every other byte
is its difference away from the prediction (`IsDecoded`).
-/

namespace Raster.Png

/-! ## The walk -/

/-- How long the payload of the chunk at some place claims to be. -/
def claimedLength (bytes : List UInt8) (offset : ℕ) : ℕ := readBigEndian32 (bytes.drop offset)

/-- The chunk at some place of a file; what the file cannot hold is cut off. -/
def chunkAt (bytes : List UInt8) (offset : ℕ) : Chunk :=
  { type := (bytes.drop (offset + 4)).take 4
    payload := (bytes.drop (offset + 8)).take (claimedLength bytes offset)
    checksum := (bytes.drop (offset + 8 + claimedLength bytes offset)).take 4 }

/-- The walk over a file from some place on, with the chunks that it comes by. It ends at a trailer
or where there is no length and type any more, and otherwise goes on behind the chunk, be that in
the file or not. -/
inductive Walk (bytes : List UInt8) : ℕ → List Chunk → Prop
  | ended {offset : ℕ} : bytes.length < offset + 8 → Walk bytes offset []
  | trailer {offset : ℕ} : offset + 8 ≤ bytes.length →
      (chunkAt bytes offset).type = Chunk.trailer → Walk bytes offset []
  | next {offset : ℕ} {chunks : List Chunk} : offset + 8 ≤ bytes.length →
      (chunkAt bytes offset).type ≠ Chunk.trailer →
      Walk bytes (offset + (12 + claimedLength bytes offset)) chunks →
      Walk bytes offset (chunkAt bytes offset :: chunks)

namespace Walk

variable {bytes : List UInt8} {offset : ℕ} {chunks : List Chunk}

theorem readAll_drop (h : offset + 8 ≤ bytes.length) :
    Chunk.readAll (bytes.drop offset) = chunkAt bytes offset ::
      Chunk.readAll (bytes.drop (offset + (12 + claimedLength bytes offset))) := by
  have hlong : ¬ (bytes.drop offset).length < 8 := by
    rw [List.length_drop]
    omega
  rw [Chunk.readAll, if_neg hlong]
  simp only [List.drop_drop]
  rfl

theorem readAll_drop_of_short (h : bytes.length < offset + 8) :
    Chunk.readAll (bytes.drop offset) = [] := by
  refine Chunk.readAll_of_short ?_
  rw [List.length_drop]
  omega

/-- Reading walks. The bytes that are left get fewer with each chunk. -/
theorem of_readAll (bytes : List UInt8) (offset : ℕ) :
    Walk bytes offset (beforeTrailer (Chunk.readAll (bytes.drop offset))) := by
  by_cases hend : bytes.length < offset + 8
  · rw [readAll_drop_of_short hend]
    exact ended hend
  · have hinside : offset + 8 ≤ bytes.length := not_lt.mp hend
    rw [readAll_drop hinside]
    by_cases htrailer : (chunkAt bytes offset).type = Chunk.trailer
    · rw [beforeTrailer_of_trailer htrailer]
      exact trailer hinside htrailer
    · rw [beforeTrailer_cons htrailer]
      exact next hinside htrailer (of_readAll bytes _)
termination_by bytes.length - offset

theorem eq_of_walk (h : Walk bytes offset chunks) :
    chunks = beforeTrailer (Chunk.readAll (bytes.drop offset)) := by
  induction h with
  | ended hend =>
    rw [readAll_drop_of_short hend]
    rfl
  | trailer hinside htrailer => rw [readAll_drop hinside, beforeTrailer_of_trailer htrailer]
  | next hinside htrailer hwalk ih => rw [readAll_drop hinside, beforeTrailer_cons htrailer, ← ih]


theorem length_le (h : Walk bytes offset chunks) :
    12 * chunks.length ≤ bytes.length - offset + 4 := by
  induction h with
  | ended | trailer => exact Nat.zero_le _
  | next hinside htrailer hwalk ih =>
    rw [List.length_cons]
    omega

end Walk

/-! ## Scanlines of any length -/

theorem eq_ok_of_mapError {ε ε' β : Type} {f : ε → ε'} {x : Except ε β} {b : β}
    (h : x.mapError f = .ok b) : x = .ok b := by
  cases x with
  | error e => cases h
  | ok b' => exact congrArg Except.ok (Except.ok.inj h)

theorem map_eq_error_iff {ε β γ : Type} {f : β → γ} {x : Except ε β} {e : ε} :
    x.map f = .error e ↔ x = .error e := by
  cases x with
  | error e' => simp [Except.map]
  | ok b => exact iff_of_false nofun nofun

theorem exists_of_map_eq_ok {ε β γ : Type} {f : β → γ} {x : Except ε β} {c : γ}
    (h : x.map f = .ok c) : ∃ b, x = .ok b ∧ f b = c := by
  cases x with
  | error e => cases h
  | ok b => exact ⟨b, rfl, Except.ok.inj h⟩

/-- A filter type that stops the reading: none at all, or one that no filter has. -/
def UnknownFilter : Option UInt8 → Prop
  | none => True
  | some type => 4 < type

theorem toByte_of_ofByte? {type : UInt8} {filter : Filter}
    (h : Filter.ofByte? type = some filter) : type = filter.toByte := by
  unfold Filter.ofByte? at h
  split at h
  all_goals cases h
  all_goals rfl

theorem ofByte?_eq_none_iff (type : UInt8) : Filter.ofByte? type = none ↔ 4 < type := by
  constructor
  · intro h
    by_contra hle
    obtain ⟨filter, rfl⟩ := Scanline.exists_filter_of_le (UInt8.not_lt.mp hle)
    rw [Filter.ofByte?_toByte] at h
    cases h
  · intro h
    cases hfilter : Filter.ofByte? type with
    | none => rfl
    | some filter =>
      rw [toByte_of_ofByte? hfilter] at h
      cases filter <;> exact absurd h (by decide)

theorem unknownFilter_iff (type : Option UInt8) :
    UnknownFilter type ↔ type.bind Filter.ofByte? = none := by
  cases type with
  | none => exact iff_of_true trivial rfl
  | some type => exact (ofByte?_eq_none_iff type).symm

namespace Scanline

/-- The filter type of row `y` in data whose rows have `width` bytes. -/
def typeAt (raw : List UInt8) (width y : ℕ) : Option UInt8 := raw[y * (width + 1)]?

/-- The differences of a row, as many as there are. -/
def differencesAt (raw : List UInt8) (width y : ℕ) : List UInt8 :=
  (raw.drop (y * (width + 1) + 1)).take width

section
variable (raw : List UInt8) (width : ℕ)

theorem typeAt_succ (y : ℕ) : typeAt raw width (y + 1) = typeAt (raw.drop (width + 1)) width y := by
  rw [typeAt, typeAt, List.getElem?_drop, Nat.succ_mul, Nat.add_comm]

theorem differencesAt_succ (y : ℕ) :
    differencesAt raw width (y + 1) = differencesAt (raw.drop (width + 1)) width y := by
  rw [differencesAt, differencesAt, List.drop_drop, Nat.succ_mul]
  congr 2
  omega

/-- The first row decides, and the others follow it in the rest of the data. -/
theorem readAll_succ (rows : ℕ) :
    readAll width (rows + 1) raw =
      match (typeAt raw width 0).bind Filter.ofByte? with
      | none => .error (typeAt raw width 0)
      | some filter => (readAll width rows (raw.drop (width + 1))).map
          (⟨filter, differencesAt raw width 0⟩ :: ·) := by
  cases raw with
  | nil => rfl
  | cons type rest =>
    have htype : typeAt (type :: rest) width 0 = some type := by simp [typeAt]
    have hdifferences : differencesAt (type :: rest) width 0 = rest.take width := by
      simp [differencesAt]
    rw [htype, hdifferences, readAll, List.drop_succ_cons]
    show _ = match Filter.ofByte? type with | none => _ | some filter => _
    cases Filter.ofByte? type <;> rfl

end

/-- Data are refused for their first row whose filter type is missing or unknown. -/
theorem readAll_eq_error_iff {raw : List UInt8} {width rows : ℕ} {e : Option UInt8} :
    readAll width rows raw = .error e ↔
      ∃ y < rows, typeAt raw width y = e ∧ UnknownFilter e ∧
        ∀ z < y, ¬ UnknownFilter (typeAt raw width z) := by
  induction rows generalizing raw with
  | zero =>
    constructor
    · intro h
      cases h
    · rintro ⟨y, hy, -⟩
      exact absurd hy (Nat.not_lt_zero y)
  | succ rows ih =>
    rw [readAll_succ]
    cases hfilter : (typeAt raw width 0).bind Filter.ofByte? with
    | none =>
      have hfirst := (unknownFilter_iff _).mpr hfilter
      constructor
      · intro h
        obtain rfl := Except.error.inj h
        exact ⟨0, rows.succ_pos, rfl, hfirst, fun z hz => absurd hz (Nat.not_lt_zero z)⟩
      · rintro ⟨y, -, rfl, -, hearlier⟩
        -- no row but the first can be the first that is unknown
        rcases Nat.eq_zero_or_pos y with rfl | hy
        · rfl
        · exact absurd hfirst (hearlier 0 hy)
    | some filter =>
      have hfirst : ¬ UnknownFilter (typeAt raw width 0) := by
        rw [unknownFilter_iff, hfilter]
        exact Option.some_ne_none filter
      rw [map_eq_error_iff, ih]
      constructor
      · rintro ⟨y, hy, htype, hunknown, hearlier⟩
        refine ⟨y + 1, Nat.succ_lt_succ hy, by rw [typeAt_succ, htype], hunknown, ?_⟩
        intro z hz
        cases z with
        | zero => exact hfirst
        | succ z =>
          rw [typeAt_succ]
          exact hearlier z (Nat.lt_of_succ_lt_succ hz)
      · rintro ⟨y, hy, htype, hunknown, hearlier⟩
        cases y with
        | zero => exact absurd (htype ▸ hunknown) hfirst
        | succ y =>
          rw [typeAt_succ] at htype
          refine ⟨y, Nat.lt_of_succ_lt_succ hy, htype, hunknown, ?_⟩
          intro z hz
          rw [← typeAt_succ]
          exact hearlier (z + 1) (Nat.succ_lt_succ hz)

/-- What is read otherwise: the scanline of every row. -/
theorem getElem?_of_readAll {raw : List UInt8} {width rows : ℕ} {lines : List Scanline}
    (h : readAll width rows raw = .ok lines) :
    lines.length = rows ∧ ∀ y < rows, ∃ filter : Filter, typeAt raw width y = some filter.toByte ∧
      lines[y]? = some ⟨filter, differencesAt raw width y⟩ := by
  induction rows generalizing raw lines with
  | zero =>
    obtain rfl := Except.ok.inj h
    exact ⟨rfl, fun y hy => absurd hy (Nat.not_lt_zero y)⟩
  | succ rows ih =>
    rw [readAll_succ] at h
    cases hfilter : (typeAt raw width 0).bind Filter.ofByte? with
    | none =>
      rw [hfilter] at h
      cases h
    | some filter =>
      rw [hfilter] at h
      obtain ⟨rest, hrest, rfl⟩ := exists_of_map_eq_ok h
      obtain ⟨hcount, hrows⟩ := ih hrest
      obtain ⟨type, htype, hbyte⟩ := Option.bind_eq_some_iff.mp hfilter
      refine ⟨by rw [List.length_cons, hcount], ?_⟩
      intro y hy
      cases y with
      | zero => exact ⟨filter, by rw [htype, toByte_of_ofByte? hbyte], rfl⟩
      | succ y =>
        rw [typeAt_succ, differencesAt_succ]
        exact hrows y (Nat.lt_of_succ_lt_succ hy)

/-- Data after the last row are not looked at. -/
theorem readAll_take (raw : List UInt8) (width rows : ℕ) :
    readAll width rows (raw.take (rows * (width + 1))) = readAll width rows raw := by
  induction rows generalizing raw with
  | zero => rfl
  | succ rows ih =>
    rw [Nat.succ_mul]
    generalize rows * (width + 1) = length at ih ⊢
    have htype : typeAt (raw.take (length + (width + 1))) width 0 = typeAt raw width 0 :=
      List.getElem?_take_of_lt (by omega)
    have hdifferences :
        differencesAt (raw.take (length + (width + 1))) width 0 = differencesAt raw width 0 := by
      rw [differencesAt, differencesAt, List.drop_take, List.take_take, Nat.min_eq_left (by omega)]
    have hrest : (raw.take (length + (width + 1))).drop (width + 1)
        = (raw.drop (width + 1)).take length := by
      rw [List.drop_take, Nat.add_sub_cancel]
    rw [readAll_succ, readAll_succ, htype, hdifferences, hrest, ih]

/-- A row that is decoded from too few differences. Where there is one, the byte is that far from
its prediction; the others are 0. -/
theorem residualsFrom_decodeFrom (filter : Filter) (step : ℕ)
    (decoded above corner differences : List UInt8) {count x : ℕ} (hx : x < count) :
    (∀ d, differences[x]? = some d →
      (residualsFrom filter step decoded above corner
        (decodeFrom filter step decoded above corner differences count))[x]? = some d) ∧
    (differences[x]? = none →
      (decodeFrom filter step decoded above corner differences count)[x]? = some 0) := by
  induction count generalizing decoded above corner differences x with
  | zero => exact absurd hx (Nat.not_lt_zero x)
  | succ count ih =>
    cases x with
    | zero =>
      cases differences with
      | nil => exact ⟨nofun, fun _ => rfl⟩
      | cons difference differences =>
        refine ⟨?_, nofun⟩
        rintro d hd
        obtain rfl := Option.some.inj hd
        exact congrArg some (UInt8.add_sub_cancel ..)
    | succ x =>
      rw [← List.getElem?_tail]
      exact ih _ above.tail corner.tail differences.tail (Nat.lt_of_succ_lt_succ hx)

/-- Row `y` of the decoded image is scanline `y`, decoded under the row before. -/
theorem row_decodeAll (step width : ℕ) (above : List UInt8) {lines : List Scanline}
    {line : Scanline} {y : ℕ} (hline : lines[y]? = some line) :
    ((decodeAll step width above lines).drop (y * width)).take width = line.decode step width
      (if y = 0 then above
        else ((decodeAll step width above lines).drop ((y - 1) * width)).take width) := by
  induction lines generalizing above y with
  | nil => cases hline
  | cons first rest ih =>
    have hfirst := first.length_decode step width above
    have hdrop (n : ℕ) : (decodeAll step width above (first :: rest)).drop ((n + 1) * width)
        = (decodeAll step width (first.decode step width above) rest).drop (n * width) := by
      rw [decodeAll, Nat.succ_mul, Nat.add_comm, ← List.drop_drop, List.drop_left' hfirst]
    cases y with
    | zero =>
      obtain rfl := Option.some.inj hline
      rw [Nat.zero_mul, List.drop_zero, decodeAll, List.take_left' hfirst, if_pos rfl]
    | succ y =>
      rw [hdrop, ih _ hline, if_neg y.succ_ne_zero, Nat.add_sub_cancel]
      cases y with
      | zero => rw [if_pos rfl, Nat.zero_mul, List.drop_zero, decodeAll, List.take_left' hfirst]
      | succ y => rw [if_neg y.succ_ne_zero, hdrop, Nat.add_sub_cancel]

end Scanline

/-- An image that some data are decoded to, whatever their length. Every row has a filter; a byte
whose difference there is lies that far from its prediction, and a byte without one is 0. -/
structure IsDecoded (raw image : List UInt8) (width height channels : ℕ) : Prop where
  length_eq : image.length = width * height * channels
  rows : ∀ y < height, ∃ filter : Filter,
    raw[y * (width * channels + 1)]? = some filter.toByte ∧
    ∀ x < width * channels,
      (∀ d, raw[y * (width * channels + 1) + 1 + x]? = some d →
        filter.residual image (width * channels) channels x y = d) ∧
      (raw[y * (width * channels + 1) + 1 + x]? = none →
        byteAt image (width * channels) x y = 0)

theorem isDecoded_of_unfilter {raw image : List UInt8} {width height channels : ℕ}
    (h : unfilter raw width height channels = .ok image) :
    IsDecoded raw image width height channels := by
  obtain ⟨lines, hread, himage⟩ := exists_of_map_eq_ok h
  obtain ⟨hcount, hlines⟩ := Scanline.getElem?_of_readAll hread
  have hlength : image.length = height * (width * channels) := by
    rw [← himage, Scanline.length_decodeAll, hcount]
  refine ⟨hlength.trans (by ring), ?_⟩
  intro y hy
  obtain ⟨filter, htype, hline⟩ := hlines y hy
  refine ⟨filter, htype, ?_⟩
  intro x hx
  have hchannels : 0 < channels := Nat.pos_of_mul_pos_left (Nat.zero_lt_of_lt hx)
  have hrow : (y + 1) * (width * channels) ≤ image.length := by
    rw [hlength]
    exact Nat.mul_le_mul_right _ hy
  have hbyte := Scanline.row_decodeAll channels (width * channels) [] hline
  have hresidual := Scanline.residuals_eq_map hchannels hrow filter
  rw [himage] at hbyte
  rw [hbyte] at hresidual
  generalize (if y = 0 then [] else (image.drop ((y - 1) * (width * channels))).take
    (width * channels)) = above at hbyte hresidual
  have hdifference : (Scanline.differencesAt raw (width * channels) y)[x]?
      = raw[y * (width * channels + 1) + 1 + x]? := by
    rw [Scanline.differencesAt, List.getElem?_take_of_lt hx, List.getElem?_drop]
  obtain ⟨hpresent, hmissing⟩ := Scanline.residualsFrom_decodeFrom filter channels [] above
    (List.replicate channels 0 ++ above) (Scanline.differencesAt raw (width * channels) y) hx
  rw [hdifference] at hpresent hmissing
  constructor
  · intro d hd
    have hcolumn := congrArg (·[x]?) hresidual
    rw [List.getElem?_map, List.getElem?_range hx, Option.map_some] at hcolumn
    exact Option.some.inj (hcolumn.symm.trans (hpresent d hd))
  · intro hnone
    have hcolumn := congrArg (·[x]?) hbyte
    rw [List.getElem?_take_of_lt hx, List.getElem?_drop] at hcolumn
    rw [byteAt, hcolumn.trans (hmissing hnone), Option.getD_some]

theorem length_unfilter {raw image : List UInt8} {width height channels : ℕ}
    (h : unfilter raw width height channels = .ok image) :
    image.length = width * height * channels :=
  (isDecoded_of_unfilter h).length_eq

/-! ## What a file is decoded to -/

theorem decodeWith_of_not_signature [Memory]
    (inflate : List UInt8 → Except Deflate.Error (List UInt8)) {bytes : List UInt8}
    (h : bytes.take 8 ≠ signature) : decodeWith inflate bytes = .error .badSignature := by
  unfold decodeWith
  rw [if_pos h]
  rfl

theorem readBigEndian32_lt (bytes : List UInt8) : readBigEndian32 bytes < 2 ^ 32 := by
  have hbyte (i : ℕ) : (bytes[i]?.getD 0).toNat < 256 := UInt8.toNat_lt _
  have h0 := hbyte 0
  have h1 := hbyte 1
  have h2 := hbyte 2
  have h3 := hbyte 3
  unfold readBigEndian32
  dsimp only
  omega

namespace Scan

/-- A scan whose sides come from a header, or from nowhere. -/
def Bounded (s : Scan) : Prop := s.width < 2 ^ 32 ∧ s.height < 2 ^ 32

theorem Bounded.step {s s' : Scan} {c : Chunk} (hs : s.Bounded) (h : s.step c = .ok s') :
    s'.Bounded := by
  by_cases hheader : c.type = Chunk.header
  · rw [step_header s hheader, readHeader_eq] at h
    split at h
    next => cases h
    next =>
      obtain rfl := Except.ok.inj h
      exact ⟨readBigEndian32_lt _, readBigEndian32_lt _⟩
  by_cases hdata : c.type = Chunk.data
  · rw [step_data s hdata] at h
    obtain rfl := Except.ok.inj h
    exact hs
  · rw [step_other s hheader hdata] at h
    obtain rfl := Except.ok.inj h
    exact hs

theorem Bounded.foldlM {s s' : Scan} {chunks : List Chunk} (hs : s.Bounded)
    (h : chunks.foldlM Scan.step s = .ok s') : s'.Bounded := by
  induction chunks generalizing s with
  | nil =>
    obtain rfl := Except.ok.inj h
    exact hs
  | cons c chunks ih =>
    rw [List.foldlM_cons] at h
    obtain ⟨next, hstep, h⟩ := exists_of_bind_eq_ok h
    exact ih (hs.step hstep) h

end Scan

/-- An image as large as it says, with sides that a header can hold. -/
structure Image.WellFormed (image : Image) : Prop where
  width_pos : 0 < image.width
  height_pos : 0 < image.height
  width_lt : image.width < 2 ^ 32
  height_lt : image.height < 2 ^ 32
  length_data : image.data.length = image.width * image.height * image.layout.channels

theorem Scan.wellFormed_of_finish [Memory]
    {inflate : List UInt8 → Except Deflate.Error (List UInt8)} {s : Scan} (hs : s.Bounded)
    {image : Image} (h : s.finish inflate = .ok image) : image.WellFormed := by
  unfold finish at h
  split at h
  next => cases h
  next hsides =>
    obtain ⟨hwidth, hheight⟩ := not_or.mp hsides
    obtain ⟨raw, -, h⟩ := exists_of_bind_eq_ok h
    obtain ⟨-, -, h⟩ := exists_of_bind_eq_ok h
    obtain ⟨data, hdata, h⟩ := exists_of_bind_eq_ok h
    obtain rfl := Except.ok.inj h
    exact
      { width_pos := Nat.pos_of_ne_zero hwidth
        height_pos := Nat.pos_of_ne_zero hheight
        width_lt := hs.1
        height_lt := hs.2
        length_data := length_unfilter (eq_ok_of_mapError hdata) }

theorem Image.WellFormed.of_decodeWith [Memory]
    {inflate : List UInt8 → Except Deflate.Error (List UInt8)} {bytes : List UInt8} {image : Image}
    (h : decodeWith inflate bytes = .ok image) : image.WellFormed := by
  by_cases hsignature : bytes.take 8 = signature
  · rw [decodeWith_of_signature inflate hsignature] at h
    obtain ⟨scan, hscan, h⟩ := exists_of_bind_eq_ok h
    have hstart : Scan.start.Bounded := ⟨by decide, by decide⟩
    exact Scan.wellFormed_of_finish (hstart.foldlM hscan) h
  · rw [decodeWith_of_not_signature inflate hsignature] at h
    cases h

end Raster.Png

namespace Raster

theorem Atlas.channels_kindOf (layout : Png.Layout) :
    (kindOf layout).channels = layout.channels := by
  cases layout <;> rfl

/-- A file that is decoded makes a texture of the kind and size of the image. -/
theorem Atlas.exists_addPngWith_of_decodeWith [Memory] (atlas : Atlas Float)
    {inflate : List UInt8 → Except Deflate.Error (List UInt8)} {bytes : List UInt8}
    {image : Png.Image} (h : Png.decodeWith inflate bytes = .ok image) :
    ∃ t : Texture Float, t.kind = kindOf image.layout ∧ t.width = image.width ∧
      t.height = image.height ∧
      atlas.perform (.addPngWith inflate bytes) = (.ok (atlas.insert t).1, (atlas.insert t).2) := by
  obtain ⟨hwidth, hheight, hwidth32, hheight32, hlength⟩ := Png.Image.WellFormed.of_decodeWith h
  obtain ⟨t, hbytes, hkind, htwidth, htheight, -⟩ :=
    Texture.ofBytes_of_toInt? (kindOf image.layout) (Scalar.exactBelow_float.toInt? (by omega))
      (Scalar.exactBelow_float.toInt? (by omega)) hwidth hheight
      (hlength.trans (by rw [channels_kindOf]))
  refine ⟨t, hkind, htwidth, htheight, ?_⟩
  rw [perform_addPngWith, h]
  show atlas.perform (.add _ (Scalar.ofNat image.width) (Scalar.ofNat image.height) _) = _
  rw [perform_add, hbytes]

namespace Png

/-- Reading comes to an end for all bytes, with an image or a precise refusal.

From behind the signature of any file there is exactly one walk, of no more chunks than a twelfth
of the bytes, and reading goes through its chunks and finishes. What comes of it is an error or an
image of at least one pixel, of one or four channels, and of just the bytes that make it, for which
there is always a texture. Data of any length are refused exactly for the first row whose filter
type is missing or above 4, and with this type; otherwise they are decoded row by row, with 0 for
what is missing, and what follows the last row is ignored. -/
theorem any_bytes_are_read_or_refused [Memory] :
    (∀ bytes : List UInt8, ∃ chunks, Walk bytes 8 chunks ∧
      (∀ other, Walk bytes 8 other → other = chunks) ∧ 12 * chunks.length ≤ bytes.length ∧
      ∀ inflate, decodeWith inflate bytes =
        if bytes.take 8 = signature then
          (chunks.foldlM Scan.step Scan.start).bind (Scan.finish inflate)
        else .error .badSignature) ∧
    (∀ inflate (bytes : List UInt8), (∃ e, decodeWith inflate bytes = .error e) ∨
      ∃ image, decodeWith inflate bytes = .ok image ∧ 1 ≤ image.width ∧ 1 ≤ image.height ∧
        (image.layout.channels = 1 ∨ image.layout.channels = 4) ∧
        image.data.length = image.width * image.height * image.layout.channels ∧
        ∀ atlas : Atlas Float,
          ∃ id next, atlas.perform (.addPngWith inflate bytes) = (.ok id, next)) ∧
    ∀ (raw : List UInt8) (width height channels : ℕ),
      (∀ type, unfilter raw width height channels = .error type ↔
        ∃ y < height, raw[y * (width * channels + 1)]? = type ∧ UnknownFilter type ∧
          ∀ z < y, ¬ UnknownFilter raw[z * (width * channels + 1)]?) ∧
      (∀ image, unfilter raw width height channels = .ok image →
        IsDecoded raw image width height channels) ∧
      unfilter (raw.take (height * (width * channels + 1))) width height channels =
        unfilter raw width height channels := by
  refine ⟨?_, ?_, ?_⟩
  · intro bytes
    have hwalk := Walk.of_readAll bytes 8
    have hlength := hwalk.length_le
    refine ⟨_, hwalk, fun other hother => hother.eq_of_walk, by omega, ?_⟩
    intro inflate
    split
    next hsignature => exact decodeWith_of_signature inflate hsignature
    next hsignature => exact decodeWith_of_not_signature inflate hsignature
  · intro inflate bytes
    cases hdecode : decodeWith inflate bytes with
    | error e => exact Or.inl ⟨e, rfl⟩
    | ok image =>
      obtain ⟨hwidth, hheight, -, -, hlength⟩ := Image.WellFormed.of_decodeWith hdecode
      have hchannels : image.layout.channels = 1 ∨ image.layout.channels = 4 := by
        cases image.layout
        · exact Or.inl rfl
        · exact Or.inr rfl
      refine Or.inr ⟨image, rfl, hwidth, hheight, hchannels, hlength, ?_⟩
      intro atlas
      obtain ⟨t, -, -, -, hadd⟩ := atlas.exists_addPngWith_of_decodeWith hdecode
      exact ⟨_, _, hadd⟩
  · intro raw width height channels
    refine ⟨?_, fun image => isDecoded_of_unfilter, ?_⟩
    · intro type
      rw [unfilter, map_eq_error_iff]
      exact Scanline.readAll_eq_error_iff
    · rw [unfilter, unfilter, Scanline.readAll_take]

/-- Data that break off in their second row, and others whose second row has a type that no filter
has. -/
theorem any_bytes_are_read_or_refused_two_rows :
    IsDecoded [1, 5, 3, 2, 7] [5, 8, 12, 0] 2 2 1 ∧
    unfilter [1, 5, 3, 9, 7] 2 2 1 = .error (some 9) := by
  let _ : Memory := .unbounded
  obtain ⟨-, -, hdata⟩ := any_bytes_are_read_or_refused
  refine ⟨(hdata [1, 5, 3, 2, 7] 2 2 1).2.1 _ rfl, ((hdata [1, 5, 3, 9, 7] 2 2 1).1 _).mpr ?_⟩
  refine ⟨1, by decide, rfl, show (4 : UInt8) < 9 by decide, ?_⟩
  intro z hz
  obtain rfl := Nat.lt_one_iff.mp hz
  exact show ¬ (4 : UInt8) < 1 by decide

end Png

end Raster
