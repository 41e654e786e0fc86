import Raster.Atlas.Basic

/-!
# Render options

`OptionsInput` is what a caller states, `Options` what is in effect after
defaults and checks: a viewport of finite, non-negative extent, and
positive whole limits. Of several faults the first in the order of the
fields is reported.

`FrameContext` is the part of the options that drawing looks at, together
with the atlas of the moment.
-/

namespace Raster

/-- Options as a caller states them; all but the viewport may be left out. -/
structure OptionsInput (α : Type) where
  viewport : Size α
  premultipliedAlpha : Option Bool
  shadowSamples : Option α
  roundSpriteCorners : Option Bool
  clearColor : Option (Rgba α)
  maxInstances : Option α
  maxPathVertices : Option α
  debug : Option Bool
  deriving Repr, DecidableEq

structure Options (α : Type) where
  /-- In logical pixels; frames are this large, rounded up. -/
  viewport : Size α
  /-- Whether contributions carry premultiplied colour. -/
  premultipliedAlpha : Bool
  shadowSamples : Nat
  /-- Whether polychrome sprites are cut to their corner radii. -/
  roundSpriteCorners : Bool
  /-- What a frame holds before drawing: linear light, straight alpha. -/
  clearColor : Rgba α
  /-- Instances drawn of a batch; the rest are dropped. -/
  maxInstances : Nat
  /-- Path vertices drawn of a batch; the rest are dropped. -/
  maxPathVertices : Nat
  debug : Bool
  deriving Repr, DecidableEq

inductive ViewportSide where
  | width
  | height
  deriving Repr, DecidableEq

/-- The options that are positive whole numbers. -/
inductive CountOption where
  | shadowSamples
  | maxInstances
  | maxPathVertices
  deriving Repr, DecidableEq

inductive OptionsError (α : Type) where
  | badViewport (side : ViewportSide) (value : α)
  | badCount (option : CountOption) (value : α)
  deriving Repr, DecidableEq

/-- What drawing a primitive may look at. -/
structure FrameContext (α : Type) where
  viewport : Size α
  premultipliedAlpha : Bool
  shadowSamples : Nat
  roundSpriteCorners : Bool
  atlas : Option (Atlas α)

namespace Options

variable {α : Type} [Scalar α]

def checkExtent (side : ViewportSide) (value : α) : Except (OptionsError α) Unit :=
  if Scalar.isFinite value && !decide (value < 0) then .ok () else .error (.badViewport side value)

/-- A viewport whose extents are finite and not negative. -/
def checkViewport (size : Size α) : Except (OptionsError α) Unit := do
  checkExtent .width size.width
  checkExtent .height size.height

/-- The positive whole number that an option states, or its default. -/
def resolveCount (option : CountOption) (default : Nat) : Option α → Except (OptionsError α) Nat
  | none => .ok default
  | some value =>
    match Scalar.toInt? value with
    | some (.ofNat (n + 1)) => .ok (n + 1)
    | _ => .error (.badCount option value)

/-- Fills in the defaults and checks the result. -/
def resolve (input : OptionsInput α) : Except (OptionsError α) (Options α) := do
  checkViewport input.viewport
  let shadowSamples ← resolveCount .shadowSamples 4 input.shadowSamples
  let maxInstances ← resolveCount .maxInstances 4096 input.maxInstances
  let maxPathVertices ← resolveCount .maxPathVertices 65536 input.maxPathVertices
  return {
    viewport := input.viewport
    premultipliedAlpha := input.premultipliedAlpha.getD false
    shadowSamples
    roundSpriteCorners := input.roundSpriteCorners.getD false
    clearColor := input.clearColor.getD Rgba.transparent
    maxInstances
    maxPathVertices
    debug := input.debug.getD false }

/-- The options with another viewport, which must pass the checks. -/
def withViewport (options : Options α) (size : Size α) :
    Except (OptionsError α) (Options α) := do
  checkViewport size
  return { options with viewport := size }

omit [Scalar α] in
/-- What drawing looks at under these options and with this atlas. -/
def context (options : Options α) (atlas : Option (Atlas α)) : FrameContext α where
  viewport := options.viewport
  premultipliedAlpha := options.premultipliedAlpha
  shadowSamples := options.shadowSamples
  roundSpriteCorners := options.roundSpriteCorners
  atlas := atlas

end Options

end Raster
