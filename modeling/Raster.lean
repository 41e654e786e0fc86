import Raster.Scalar.Binary64
import Raster.Scalar.Real
import Raster.Frame.Picture
import Raster.Renderer
import Raster.Wording
import Raster.Proofs.AlphaModes
import Raster.Proofs.Batching
import Raster.Proofs.Clipping
import Raster.Proofs.ImageRoundTrip
import Raster.Proofs.PngRoundTrip
import Raster.Proofs.FillRule
import Raster.Proofs.QuadInterior
import Raster.Proofs.Compositing
import Raster.Proofs.AtlasHistory
import Raster.Proofs.ColorRange
import Raster.Proofs.FrameValidity
import Raster.Proofs.MissingBorder
import Raster.Proofs.RasterBounds
import Raster.Proofs.Influence
import Raster.Proofs.ResolvedOptions
import Raster.Proofs.RendererHistory
import Raster.Proofs.ShadowBlur
import Raster.Proofs.EmptyShapes
import Raster.Proofs.RunGrouping
import Raster.Proofs.Limits
import Raster.Proofs.Unfiltering
import Raster.Proofs.Divisors
import Raster.Proofs.NonzeroDivisors
import Raster.Proofs.Checksum
import Raster.Proofs.WrittenFiles
import Raster.Proofs.ColorWheel
import Raster.Proofs.DamagedFiles
import Raster.Proofs.OuterRamp
import Raster.Proofs.SpriteHull
import Raster.Proofs.ShadowSamples
import Raster.Proofs.ShadowSymmetry
import Raster.Proofs.ShadowCoverage
import Raster.Proofs.ShadowFallOff
import Raster.Proofs.OutwardCoverage
import Raster.Proofs.QuadSymmetry
import Raster.Proofs.RoundedShape
import Raster.Proofs.PathBatches
import Raster.Proofs.VertexOrder
import Raster.Proofs.BilinearSampling
import Raster.Proofs.SpriteTransformation
import Raster.Proofs.GradientSymmetry
import Raster.Proofs.WaveBand
import Raster.Proofs.OklabRoundTrip
import Raster.Proofs.BorderCorner
