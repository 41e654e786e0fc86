import Raster.Memory
import Raster.Deflate.Inflate
import Raster.Png.Chunk
import Raster.Png.Filter

/-!
# Reading PNG images

Images of eight bits per channel, gray or RGBA. The payloads of the data
chunks together are a deflate stream of the filtered scanlines. Reading
looks at the chunks up to the trailer; it skips what it does not know and
checks no checksums.
-/

namespace Raster.Png

inductive Layout where
  | gray
  | rgba
  deriving Repr, DecidableEq, Inhabited

def Layout.channels : Layout → Nat
  | gray => 1
  | rgba => 4

structure Image where
  data : List UInt8
  width : Nat
  height : Nat
  layout : Layout
  deriving Repr, DecidableEq

inductive Error where
  | badSignature
  /-- A header with a bit depth and colour type, each of which may be missing, other than eight
  bits of gray or RGBA. -/
  | badFormat (depth colorType : Option UInt8)
  /-- No header, or a header with a side of length zero. -/
  | missingHeader
  | corruptData (error : Deflate.Error)
  | noBuffer (error : BufferError Nat)
  | badFilter (type : Option UInt8)
  deriving Repr, DecidableEq

/-- What the chunks read so far say about the image. -/
structure Scan where
  width : Nat
  height : Nat
  layout : Layout
  data : List UInt8
  deriving Repr, DecidableEq

namespace Scan

/-- Nothing read yet: no size, no data. -/
def start : Scan := ⟨0, 0, .rgba, []⟩

/-- Reads a header, or refuses its format. A later header replaces an earlier one. -/
def readHeader (s : Scan) (payload : List UInt8) : Except Error Scan :=
  let sized (layout : Layout) : Scan :=
    { s with
      width := readBigEndian32 payload
      height := readBigEndian32 (payload.drop 4)
      layout }
  if payload[8]? = some 8 ∧ payload[9]? = some 0 then .ok (sized .gray)
  else if payload[8]? = some 8 ∧ payload[9]? = some 6 then .ok (sized .rgba)
  else .error (.badFormat payload[8]? payload[9]?)

def step (s : Scan) (c : Chunk) : Except Error Scan :=
  if c.type = Chunk.header then s.readHeader c.payload
  else if c.type = Chunk.data then .ok { s with data := s.data ++ c.payload }
  else .ok s

/-- The image that scanline data make under what was read. -/
def image [Memory] (s : Scan) (raw : List UInt8) : Except Error Image := do
  (reserve 1 (s.width * s.height * s.layout.channels)).mapError .noBuffer
  let data ← (unfilter raw s.width s.height s.layout.channels).mapError .badFilter
  return ⟨data, s.width, s.height, s.layout⟩

end Scan

variable [Memory]

/-- Reads an image whose data were compressed so that `inflate` recovers them. -/
def decodeWith (inflate : List UInt8 → Except Deflate.Error (List UInt8)) (bytes : List UInt8) :
    Except Error Image := do
  if bytes.take 8 ≠ signature then throw .badSignature
  let chunks := (Chunk.readAll (bytes.drop 8)).takeWhile (·.type ≠ Chunk.trailer)
  let scan ← chunks.foldlM Scan.step Scan.start
  if scan.width = 0 ∨ scan.height = 0 then throw .missingHeader
  scan.image (← (inflate scan.data).mapError .corruptData)

def decode (bytes : List UInt8) : Except Error Image := decodeWith Deflate.inflate bytes

end Raster.Png
