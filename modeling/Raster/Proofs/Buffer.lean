import Raster.Frame.Basic

/-!
# Reading a buffer back

What a buffer holds after a write, number by number (`get_put`) and pixel
by pixel (`pixel_putPixel_self`, `pixel_putPixel_of_apart`). Places may
lie outside the buffer: such a write changes nothing.

For frames the offsets of two different pixels are four numbers apart, so
`compositeAt` at one pixel leaves all others as they are
(`Frame.pixel_compositeAt`). A frame is determined by its pixels
(`Frame.ext_pixel`).
-/

namespace Raster

namespace Buffer

variable {α : Type} [Scalar α]

/-! ## Single numbers -/

theorem get_put (buffer : Array α) (place other : Int) (v : α) :
    get (put buffer place v) other =
      if place = other ∧ 0 ≤ place ∧ place < buffer.size then v else get buffer other := by
  unfold get get? put
  by_cases hother : 0 ≤ other
  · by_cases hplace : 0 ≤ place
    · simp only [hother, hplace, if_true, Array.getElem?_setIfInBounds]
      by_cases heq : place = other
      · subst heq
        by_cases hin : place < buffer.size
        · simp only [true_and, hin, if_true, show place.toNat < buffer.size by omega]
          rfl
        · have hout : ¬ place.toNat < buffer.size := by omega
          simp [hin, hout]
      · have hne : place.toNat ≠ other.toNat := by omega
        simp [heq, hne]
    · simp [hother, hplace]
  · have hne : ¬ (place = other ∧ 0 ≤ place ∧ place < buffer.size) := by omega
    simp only [hother, if_false, hne]

theorem get_put_self {buffer : Array α} {place : Int} (v : α) (hlow : 0 ≤ place)
    (hhigh : place < buffer.size) : get (put buffer place v) place = v := by
  rw [get_put, if_pos ⟨rfl, hlow, hhigh⟩]

theorem get_put_of_ne (buffer : Array α) {place other : Int} (v : α) (h : place ≠ other) :
    get (put buffer place v) other = get buffer other := by
  rw [get_put, if_neg fun hand => h hand.1]

theorem get_eq_getElem {buffer : Array α} {i : Nat} (h : i < buffer.size) :
    get buffer i = buffer[i] := by
  simp [get, get?, h]

/-! ## Pixels -/

theorem pixel_putPixel_self {buffer : Array α} {offset : Int} (c : Rgba α) (hlow : 0 ≤ offset)
    (hhigh : offset + 3 < buffer.size) : pixel (putPixel buffer offset c) offset = c := by
  unfold pixel putPixel
  have hr : get (put (put (put (put buffer offset c.r) (offset + 1) c.g) (offset + 2) c.b)
      (offset + 3) c.a) offset = c.r := by
    rw [get_put_of_ne _ _ (by omega), get_put_of_ne _ _ (by omega), get_put_of_ne _ _ (by omega),
      get_put_self _ hlow (by omega)]
  have hg : get (put (put (put (put buffer offset c.r) (offset + 1) c.g) (offset + 2) c.b)
      (offset + 3) c.a) (offset + 1) = c.g := by
    rw [get_put_of_ne _ _ (by omega), get_put_of_ne _ _ (by omega),
      get_put_self _ (by omega) (by rw [size_put]; omega)]
  have hb : get (put (put (put (put buffer offset c.r) (offset + 1) c.g) (offset + 2) c.b)
      (offset + 3) c.a) (offset + 2) = c.b := by
    rw [get_put_of_ne _ _ (by omega), get_put_self _ (by omega) (by simp only [size_put]; omega)]
  have ha : get (put (put (put (put buffer offset c.r) (offset + 1) c.g) (offset + 2) c.b)
      (offset + 3) c.a) (offset + 3) = c.a :=
    get_put_self _ (by omega) (by simp only [size_put]; omega)
  rw [hr, hg, hb, ha]

/-- A write of four numbers does not reach a number before or after them. -/
theorem get_putPixel_of_apart (buffer : Array α) {offset place : Int} (c : Rgba α)
    (h : place < offset ∨ offset + 3 < place) :
    get (putPixel buffer offset c) place = get buffer place := by
  unfold putPixel
  rw [get_put_of_ne _ _ (by omega), get_put_of_ne _ _ (by omega), get_put_of_ne _ _ (by omega),
    get_put_of_ne _ _ (by omega)]

theorem pixel_putPixel_of_apart (buffer : Array α) {offset other : Int} (c : Rgba α)
    (h : other + 3 < offset ∨ offset + 3 < other) :
    pixel (putPixel buffer offset c) other = pixel buffer other := by
  unfold pixel
  rw [get_putPixel_of_apart _ _ (by omega), get_putPixel_of_apart _ _ (by omega),
    get_putPixel_of_apart _ _ (by omega), get_putPixel_of_apart _ _ (by omega)]

theorem pixel_composite_self {buffer : Array α} {offset : Int} (c : Rgba α) (premultiplied : Bool)
    (hlow : 0 ≤ offset) (hhigh : offset + 3 < buffer.size) :
    pixel (composite buffer offset c premultiplied) offset
      = c.onto premultiplied (pixel buffer offset) :=
  pixel_putPixel_self _ hlow hhigh

theorem pixel_composite_of_apart (buffer : Array α) {offset other : Int} (c : Rgba α)
    (premultiplied : Bool) (h : other + 3 < offset ∨ offset + 3 < other) :
    pixel (composite buffer offset c premultiplied) other = pixel buffer other :=
  pixel_putPixel_of_apart _ _ h

/-- Buffers of whole pixels that agree in every pixel are equal. -/
theorem ext_pixel {b b' : Array α} {n : Nat} (hb : b.size = n * 4) (hb' : b'.size = n * 4)
    (h : ∀ i < n, pixel b (i * 4 : Nat) = pixel b' (i * 4 : Nat)) : b = b' := by
  refine Array.ext (hb.trans hb'.symm) fun i hi hi' => ?_
  have hpixel := h (i / 4) (by omega)
  simp only [pixel, Rgba.mk.injEq] at hpixel
  obtain ⟨h0, h1, h2, h3⟩ := hpixel
  rw [← get_eq_getElem hi, ← get_eq_getElem hi']
  have hmod : i % 4 < 4 := Nat.mod_lt _ (by decide)
  rcases show i % 4 = 0 ∨ i % 4 = 1 ∨ i % 4 = 2 ∨ i % 4 = 3 by omega with hi4 | hi4 | hi4 | hi4
  · rwa [show ((i / 4 * 4 : Nat) : Int) = i by omega] at h0
  · rwa [show ((i / 4 * 4 : Nat) : Int) + 1 = i by omega] at h1
  · rwa [show ((i / 4 * 4 : Nat) : Int) + 2 = i by omega] at h2
  · rwa [show ((i / 4 * 4 : Nat) : Int) + 3 = i by omega] at h3

end Buffer

namespace Frame

variable {α : Type} [Scalar α]

/-! ## Pixels of a frame -/

@[simp] theorem width_compositeAt (f : Frame α) (offset : Int) (c : Rgba α)
    (premultiplied : Bool) : (f.compositeAt offset c premultiplied).width = f.width := rfl

@[simp] theorem height_compositeAt (f : Frame α) (offset : Int) (c : Rgba α)
    (premultiplied : Bool) : (f.compositeAt offset c premultiplied).height = f.height := rfl

theorem pixel_compositeAt (f : Frame α) (offset : Int) (c : Rgba α) (premultiplied : Bool)
    (column row : Nat) :
    (f.compositeAt offset c premultiplied).pixel column row
      = Buffer.pixel (Buffer.composite f.data offset c premultiplied) (f.offset column row) := rfl

omit [Scalar α] in
theorem place_lt {width height column row : Nat} (hx : column < width) (hy : row < height) :
    row * width + column < width * height := by
  calc row * width + column < row * width + width := by omega
    _ = (row + 1) * width := by rw [Nat.add_mul, Nat.one_mul]
    _ ≤ height * width := Nat.mul_le_mul_right _ hy
    _ = width * height := Nat.mul_comm ..

omit [Scalar α] in
theorem offset_lt (f : Frame α) {column row : Nat} (hx : column < f.width) (hy : row < f.height) :
    f.offset column row + 3 < f.data.size := by
  have := place_lt hx hy
  rw [f.size_data, offset]
  omega

omit [Scalar α] in
/-- Two pixels of a row-major grid at the same place are the same pixel. -/
theorem eq_of_place_eq {width column row column' row' : Nat} (hx : column < width)
    (hx' : column' < width) (h : row * width + column = row' * width + column') :
    column = column' ∧ row = row' := by
  have hcolumn : column = column' := by
    have hmod := congrArg (· % width) h
    simpa only [Nat.mul_add_mod', Nat.mod_eq_of_lt, hx, hx'] using hmod
  refine ⟨hcolumn, ?_⟩
  subst hcolumn
  exact Nat.eq_of_mul_eq_mul_right (by omega) (Nat.add_right_cancel h)

theorem pixel_compositeAt_self (f : Frame α) {column row : Nat} (hx : column < f.width)
    (hy : row < f.height) (c : Rgba α) (premultiplied : Bool) :
    (f.compositeAt (f.offset column row) c premultiplied).pixel column row
      = c.onto premultiplied (f.pixel column row) := by
  have hin := f.offset_lt hx hy
  rw [pixel_compositeAt, Buffer.pixel_composite_self _ _ (by omega) (by omega)]
  rfl

theorem pixel_compositeAt_of_ne (f : Frame α) {column row column' row' : Nat}
    (hx : column < f.width) (hx' : column' < f.width) (hne : (column, row) ≠ (column', row'))
    (c : Rgba α) (premultiplied : Bool) :
    (f.compositeAt (f.offset column row) c premultiplied).pixel column' row'
      = f.pixel column' row' := by
  have hplace : row * f.width + column ≠ row' * f.width + column' := fun heq => by
    obtain ⟨rfl, rfl⟩ := eq_of_place_eq hx hx' heq
    exact hne rfl
  rw [pixel_compositeAt, Buffer.pixel_composite_of_apart _ _ _ (by unfold offset; omega)]
  rfl

/-- Frames of one size that agree in every pixel are equal. -/
theorem ext_pixel {f f' : Frame α} (hwidth : f.width = f'.width) (hheight : f.height = f'.height)
    (h : ∀ column < f.width, ∀ row < f.height, f.pixel column row = f'.pixel column row) :
    f = f' := by
  obtain ⟨width, height, data, hsize⟩ := f
  obtain ⟨width', height', data', hsize'⟩ := f'
  obtain rfl : width = width' := hwidth
  obtain rfl : height = height' := hheight
  suffices data = data' by subst this; rfl
  refine Buffer.ext_pixel hsize hsize' fun i hi => ?_
  have hwidth : 0 < width := by
    rcases Nat.eq_zero_or_pos width with rfl | hpos
    · omega
    · exact hpos
  have hpixel := h (i % width) (Nat.mod_lt _ hwidth) (i / width)
    (Nat.div_lt_of_lt_mul hi)
  simp only [pixel, offset] at hpixel
  rwa [Nat.div_add_mod'] at hpixel

/-- Clearing sets every pixel to the colour as a buffer stores it. -/
theorem pixel_clear (f : Frame α) (c : Rgba α) {column row : Nat} (hx : column < f.width)
    (hy : row < f.height) : (f.clear c).pixel column row = c.premultiply.store := by
  have hplace := place_lt hx hy
  have hget (i : Nat) (hi : i < 4) :
      Buffer.get (f.clear c).data (((row * f.width + column) * 4 + i : Nat) : Int)
        = c.premultiply.store.channel i := by
    have hin : (row * f.width + column) * 4 + i < (f.clear c).data.size := by
      rw [(f.clear c).size_data]
      show _ < f.width * f.height * 4
      omega
    rw [Buffer.get_eq_getElem hin]
    simp only [clear, Array.getElem_ofFn]
    rw [show ((row * f.width + column) * 4 + i) % 4 = i by omega]
  have h0 := hget 0 (by decide)
  have h1 := hget 1 (by decide)
  have h2 := hget 2 (by decide)
  have h3 := hget 3 (by decide)
  simp only [Frame.pixel, Buffer.pixel, Frame.offset]
  show (⟨_, _, _, _⟩ : Rgba α) = _
  rw [Rgba.mk.injEq]
  exact ⟨h0, h1, h2, h3⟩

end Frame

end Raster
