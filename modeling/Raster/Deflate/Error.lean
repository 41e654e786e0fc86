/-!
# Faults of a compressed stream
-/

namespace Raster.Deflate

inductive Error where
  /-- The stream ends inside a block. -/
  | unexpectedEnd
  /-- A block of the reserved type. -/
  | badBlockType
  /-- Bits that are no literal or length code. -/
  | badLiteral
  /-- Bits that are no distance code, or a distance to before the output. -/
  | badDistance
  deriving Repr, DecidableEq

def Error.message : Error → String
  | unexpectedEnd => "unexpected EOF"
  | badBlockType => "invalid block type"
  | badLiteral => "invalid length/literal"
  | badDistance => "invalid distance"

end Raster.Deflate
