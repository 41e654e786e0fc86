/-!
# Scanline filters

Each row of an image is stored as a scanline: a filter type and, for each
byte, the difference to a prediction from its decoded neighbours. These are
the byte to the left, the one above, and the one above on the left, in
steps of whole pixels. Neighbours outside the image are 0.

Reading is split in two. `Scanline.readAll` cuts data into scanlines and
is where a filter type can be missing or unknown; `Scanline.decodeAll`
turns scanlines into the bytes of the image and always succeeds.
-/

namespace Raster.Png

inductive Filter where
  | none
  | sub
  | up
  | average
  | paeth
  deriving Repr, DecidableEq, Inhabited

namespace Filter

def ofByte? : UInt8 → Option Filter
  | 0 => some none
  | 1 => some sub
  | 2 => some up
  | 3 => some average
  | 4 => some paeth
  | _ => Option.none

def toByte : Filter → UInt8
  | none => 0
  | sub => 1
  | up => 2
  | average => 3
  | paeth => 4

/-- Of three neighbours the one nearest to left + above − corner; left wins ties, then above. -/
def nearest (left above corner : UInt8) : UInt8 :=
  let p : Int := left.toNat + above.toNat - corner.toNat
  let toLeft := (p - left.toNat).natAbs
  let toAbove := (p - above.toNat).natAbs
  let toCorner := (p - corner.toNat).natAbs
  if toLeft ≤ toAbove ∧ toLeft ≤ toCorner then left
  else if toAbove ≤ toCorner then above
  else corner

def predict (filter : Filter) (left above corner : UInt8) : UInt8 :=
  match filter with
  | none => 0
  | sub => left
  | up => above
  | average => UInt8.ofNat ((left.toNat + above.toNat) / 2)
  | paeth => nearest left above corner

end Filter

structure Scanline where
  filter : Filter
  /-- Differences, as many as the data had. -/
  differences : List UInt8
  deriving Repr, DecidableEq

namespace Scanline

/-- Decodes the rest of a row. `decoded` holds the bytes before it, the last one first; `above`
and `corner` run along the row above, the latter one pixel behind. A byte whose difference is
missing decodes to 0. -/
def decodeFrom (filter : Filter) (step : Nat) (decoded : List UInt8) :
    (above corner differences : List UInt8) → (count : Nat) → List UInt8
  | _, _, _, 0 => []
  | above, corner, differences, count + 1 =>
    let left := decoded[step - 1]?.getD 0
    let byte := match differences with
      | [] => 0
      | difference :: _ => difference + filter.predict left (above.headD 0) (corner.headD 0)
    byte :: decodeFrom filter step (byte :: decoded) above.tail corner.tail differences.tail count

/-- Decodes a row of `width` bytes under the decoded row `above`; a pixel has `step` bytes. -/
def decode (line : Scanline) (step width : Nat) (above : List UInt8) : List UInt8 :=
  decodeFrom line.filter step [] above (List.replicate step 0 ++ above) line.differences width

def decodeAll (step width : Nat) : (above : List UInt8) → List Scanline → List UInt8
  | _, [] => []
  | above, line :: rest =>
    let row := line.decode step width above
    row ++ decodeAll step width row rest

/-- Cuts `rows` scanlines of `width` bytes off some data; the last of them may be short. The error
is the first filter type that is missing or unknown. -/
def readAll (width : Nat) : (rows : Nat) → List UInt8 → Except (Option UInt8) (List Scanline)
  | 0, _ => .ok []
  | _ + 1, [] => .error none
  | rows + 1, type :: rest =>
    match Filter.ofByte? type with
    | none => .error (some type)
    | some filter => do
      return ⟨filter, rest.take width⟩ :: (← readAll width rows (rest.drop width))

def write (line : Scanline) : List UInt8 := line.filter.toByte :: line.differences

end Scanline

/-- Decodes an image of `width` by `height` pixels of `channels` bytes. Bytes after the last row
are ignored. -/
def unfilter (raw : List UInt8) (width height channels : Nat) :
    Except (Option UInt8) (List UInt8) :=
  (Scanline.readAll (width * channels) height raw).map
    (Scanline.decodeAll channels (width * channels) [])

end Raster.Png
