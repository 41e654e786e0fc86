import Raster.Decimal.Text
import Raster.Log
import Raster.Png.Encoding
import Raster.Renderer

/-!
# The wording of errors

What errors say. Numbers are written as in `numberText`.
-/

namespace Raster

def ViewportSide.text : ViewportSide → String
  | width => "width"
  | height => "height"

def CountOption.text : CountOption → String
  | shadowSamples => "shadowSampleCount"
  | maxInstances => "maxInstancesPerBatch"
  | maxPathVertices => "maxPathVerticesPerBatch"

def extentsText (width height : Float) : String := numberText width ++ "x" ++ numberText height

def OptionsError.message : OptionsError Float → String
  | badViewport side value =>
    "Viewport " ++ side.text ++ " must be a finite, non-negative number (got "
      ++ numberText value ++ ")"
  | badCount option value =>
    option.text ++ " must be a positive integer (got " ++ numberText value ++ ")"

def BufferError.message : BufferError Float → String
  | badLength length => "Invalid typed array length: " ++ numberText length
  | noRoom => "Array buffer allocation failed"

def FrameError.message : FrameError Float → String
  | badDimensions width height =>
    "Frame dimensions must be non-negative integers (got " ++ extentsText width height ++ ")"
  | noBuffer error => (error.map Float.ofNat).message
  | outside x y width height =>
    "Pixel (" ++ numberText x ++ ", " ++ numberText y ++ ") is outside the "
      ++ extentsText (Float.ofNat width) (Float.ofNat height) ++ " frame"

def RenderError.message : RenderError Float → String
  | disposed => "SoftwareRenderer has been disposed"
  | badFrame error => error.message

/-- A byte as text, or a word for one that is not there. -/
def byteText : Option UInt8 → String
  | some byte => byte.toNat.repr
  | none => "undefined"

def Png.Error.message : Png.Error → String
  | badSignature => "Invalid PNG signature"
  | badFormat depth colorType =>
    "Unsupported PNG format: bitDepth=" ++ byteText depth ++ ", colorType=" ++ byteText colorType
      ++ ". Only 8-bit gray or RGBA is supported."
  | missingHeader => "PNG missing IHDR chunk"
  | corruptData error => error.message
  | noBuffer error => (error.map Float.ofNat).message
  | badFilter type => "Unsupported PNG filter type: " ++ byteText type

def Png.EncodingError.message : Png.EncodingError Float → String
  | sizeMismatch length width height =>
    "Pixel data length (" ++ length.repr ++ ") does not match " ++ extentsText width height
      ++ " RGBA (" ++ numberText (width * height * 4) ++ ")"
  | noBuffer error => error.message
  | rowOutside => "offset is out of bounds"

def TextureError.message : TextureError Float → String
  | badDimensions width height =>
    "Texture dimensions must be positive integers (got " ++ extentsText width height ++ ")"
  | badLength length width height kind =>
    let w := Float.ofNat width
    let h := Float.ofNat height
    "Texture data length (" ++ length.repr ++ ") does not match " ++ extentsText w h ++ " "
      ++ kind.text ++ " (" ++ numberText (w * h * Float.ofNat kind.channels) ++ ")"

def AtlasError.message : AtlasError Float → String
  | badTexture error => error.message
  | badImage error => error.message
  | unknownTexture ref => "Unknown atlas texture: " ++ ref.text

end Raster
