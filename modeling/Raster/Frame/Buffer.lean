import Raster.Color.Blend

/-!
# Pixel buffers

A buffer is an array of numbers, four of them to a pixel. It is addressed
by the place of a pixel's red channel, which may be anything: what lies
outside the buffer is not written.

A place is an integer (`composite`) or a number of any kind
(`compositeAt`). Between whole numbers there is nothing to address.
-/

namespace Raster

/-- One of the four channels, in the order in which a buffer holds them. -/
def Rgba.channel {α : Type} (c : Rgba α) : Nat → α
  | 0 => c.r
  | 1 => c.g
  | 2 => c.b
  | _ => c.a

namespace Buffer

variable {α : Type}

def put (buffer : Array α) (place : Int) (v : α) : Array α :=
  if 0 ≤ place then buffer.setIfInBounds place.toNat v else buffer

def putPixel (buffer : Array α) (offset : Int) (c : Rgba α) : Array α :=
  put (put (put (put buffer offset c.r) (offset + 1) c.g) (offset + 2) c.b) (offset + 3) c.a

@[simp] theorem size_put (buffer : Array α) (place : Int) (v : α) :
    (put buffer place v).size = buffer.size := by
  unfold put
  split
  · exact Array.size_setIfInBounds
  · rfl

@[simp] theorem size_putPixel (buffer : Array α) (offset : Int) (c : Rgba α) :
    (putPixel buffer offset c).size = buffer.size := by
  simp [putPixel]

def get? (buffer : Array α) (place : Int) : Option α :=
  if 0 ≤ place then buffer[place.toNat]? else none

variable [Scalar α]

def get (buffer : Array α) (place : Int) : α := (get? buffer place).getD 0

def pixel (buffer : Array α) (offset : Int) : Rgba α :=
  ⟨get buffer offset, get buffer (offset + 1), get buffer (offset + 2), get buffer (offset + 3)⟩

def composite (buffer : Array α) (offset : Int) (c : Rgba α) (premultiplied : Bool) : Array α :=
  putPixel buffer offset (c.onto premultiplied (pixel buffer offset))

@[simp] theorem size_composite (buffer : Array α) (offset : Int) (c : Rgba α)
    (premultiplied : Bool) : (composite buffer offset c premultiplied).size = buffer.size :=
  size_putPixel ..

/-! ## Places that are numbers -/

/-- The places of the four channels from an offset on. Each is a sum of its own, which may be whole
by rounding where the offset is not. -/
def places (offset : α) : Rgba α := ⟨offset, offset + 1, offset + 2, offset + 3⟩

/-- The number at a place, if it is whole and inside. -/
def getAt? (buffer : Array α) (place : α) : Option α :=
  (Scalar.toInt? place).bind (get? buffer)

/-- Replaces the number at a place, if it is whole and inside. -/
def putAt (buffer : Array α) (place v : α) : Array α :=
  match Scalar.toInt? place with
  | some n => put buffer n v
  | none => buffer

/-- The channels of the pixel at an offset, as far as there are any. -/
def pixelAt? (buffer : Array α) (offset : α) : Rgba (Option α) :=
  (places offset).map (getAt? buffer)

/-- Lays a contribution onto the pixel at an offset, as far as there is one. -/
def compositeAt (buffer : Array α) (offset : α) (c : Rgba α) (premultiplied : Bool) : Array α :=
  let place := places offset
  let mixed := c.onto premultiplied ((pixelAt? buffer offset).map (·.getD 0))
  putAt (putAt (putAt (putAt buffer place.r mixed.r) place.g mixed.g) place.b mixed.b)
    place.a mixed.a

@[simp] theorem size_putAt (buffer : Array α) (place v : α) :
    (putAt buffer place v).size = buffer.size := by
  unfold putAt
  split
  · exact size_put ..
  · rfl

@[simp] theorem size_compositeAt (buffer : Array α) (offset : α) (c : Rgba α)
    (premultiplied : Bool) : (compositeAt buffer offset c premultiplied).size = buffer.size := by
  simp [compositeAt]

end Buffer

end Raster
