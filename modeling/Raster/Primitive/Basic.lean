import Raster.Geometry.Clip
import Raster.Geometry.Device
import Raster.Options

/-!
# Primitives

What all primitives have in common: a place in the draw order, a clip
rectangle, and their bounds. A primitive is drawn in two stages. The
first, once per instance, projects it: the rectangle of pixels that may be
touched, the device positions of its vertices, and whatever the second
stage would otherwise compute again for every pixel. The second stage
gives the colour at a pixel centre.
-/

namespace Raster

structure Placement (α : Type) where
  /-- Place in the order of submission; carried along, never sorted by. -/
  order : α
  /-- Nothing outside this rectangle is drawn. -/
  contentMask : Bounds α
  bounds : Bounds α
  deriving Repr, DecidableEq, Inhabited

/-- The outcome of the first stage. -/
structure Projection (α V : Type) where
  /-- The rectangle whose pixels the second stage is asked for. -/
  rasterBounds : Bounds α
  /-- For consumers that work in device space; drawing does not look at them. -/
  devicePositions : List (DevicePosition α)
  varying : V

end Raster
