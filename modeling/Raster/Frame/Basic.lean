import Raster.Memory
import Raster.Frame.Buffer

/-!
# Frames

A frame is a grid of pixels in linear light, stored premultiplied. Its
buffer always has four numbers for each pixel. Contributions are laid on
in the order in which they come.

Pixel positions of `blend` and `pixel?` are numbers of any kind. A
position inside the frame addresses the buffer at four times its place in
row order.
-/

namespace Raster

structure Frame (α : Type) where
  width : Nat
  height : Nat
  data : Array α
  size_data : data.size = width * height * 4

inductive FrameError (α : Type) where
  | badDimensions (width height : α)
  | noBuffer (error : BufferError Nat)
  | outside (x y : α) (width height : Nat)
  deriving Repr, DecidableEq

namespace Frame

variable {α : Type} [Scalar α]

/-- A frame whose pixels are all transparent black. -/
def blank (width height : Nat) : Frame α :=
  ⟨width, height, Array.replicate (width * height * 4) 0, by simp⟩

def elementSize : Nat := 4

/-- A blank frame of a size given as two numbers, which must be natural, if its pixels find room. -/
def ofSize [Memory] (width height : α) : Except (FrameError α) (Frame α) :=
  match Scalar.toInt? width, Scalar.toInt? height with
  | some (.ofNat w), some (.ofNat h) =>
    match reserve elementSize (w * h * 4) with
    | .ok () => .ok (blank w h)
    | .error e => .error (.noBuffer e)
  | _, _ => .error (.badDimensions width height)

/-- Overwrites every pixel with a colour given with straight alpha. -/
def clear (f : Frame α) (c : Rgba α) : Frame α where
  width := f.width
  height := f.height
  data := Array.ofFn fun i : Fin (f.width * f.height * 4) => c.premultiply.store.channel (i % 4)
  size_data := by simp

/-- Lays a contribution onto the pixel at an offset of the buffer. -/
def compositeAt (f : Frame α) (offset : Int) (c : Rgba α) (premultiplied : Bool) : Frame α where
  width := f.width
  height := f.height
  data := Buffer.composite f.data offset c premultiplied
  size_data := by simp [f.size_data]

def offset (f : Frame α) (column row : Nat) : Nat := (row * f.width + column) * 4

def pixel (f : Frame α) (column row : Nat) : Rgba α := Buffer.pixel f.data (f.offset column row)

def excludes (f : Frame α) (x y : α) : Bool :=
  x < 0 || y < 0 || Scalar.ofNat f.width ≤ x || Scalar.ofNat f.height ≤ y

def offsetAt (f : Frame α) (x y : α) : α := (y * Scalar.ofNat f.width + x) * 4

/-- Lays a contribution onto the pixel at a position. Positions outside are ignored. -/
def blend (f : Frame α) (x y : α) (c : Rgba α) (premultiplied : Bool) : Frame α :=
  if f.excludes x y then f
  else
    { f with
      data := Buffer.compositeAt f.data (f.offsetAt x y) c premultiplied
      size_data := by simp [f.size_data] }

/-- The stored value of the pixel at a position. A position between pixels may address no number
of the buffer, or none for some of the channels. -/
def pixel? (f : Frame α) (x y : α) : Except (FrameError α) (Rgba (Option α)) :=
  if f.excludes x y then .error (.outside x y f.width f.height)
  else .ok (Buffer.pixelAt? f.data (f.offsetAt x y))

end Frame

end Raster
