import Raster.Atlas.Basic
import Raster.Decimal.Text

/-!
# The log

What a renderer has to say while drawing: warnings about what is dropped
or skipped, and with the debug option a line for each pass and one for the
frame. Events are data; `LogEvent.text` words them.
-/

namespace Raster

inductive LogLevel where
  | warn
  | debug
  deriving Repr, DecidableEq

/-- A pass over the instances of a batch. Underlines take two. -/
inductive Pass where
  | quads
  | shadows
  | monochromeSprites
  | polychromeSprites
  | paths
  | straightUnderlines
  | wavyUnderlines
  deriving Repr, DecidableEq

inductive LogEvent (α : Type) where
  | instancesDropped (pass : Pass) (count limit : Nat)
  | verticesDropped (count limit : Nat)
  /-- Sprites whose texture is not to be had. -/
  | textureMissing (pass : Pass) (texture : TextureRef α)
  | drawn (pass : Pass) (count : Nat)
  | finished (width height batches : Nat)
  deriving Repr, DecidableEq

def TextureKind.text : TextureKind → String
  | monochrome => "monochrome"
  | polychrome => "polychrome"

def TextureRef.text : TextureRef Float → String
  | numbered id => id.kind.text ++ " #" ++ numberText (Float.ofInt id.index)
  | stray kind number => kind.text ++ " #" ++ numberText number

def Pass.label : Pass → String
  | quads => "quads"
  | shadows => "shadows"
  | monochromeSprites => "monochrome-sprites"
  | polychromeSprites => "polychrome-sprites"
  | paths => "paths"
  | straightUnderlines => "underlines (straight)"
  | wavyUnderlines => "underlines (wavy)"

namespace LogEvent

def level {α : Type} : LogEvent α → LogLevel
  | instancesDropped .. => .warn
  | verticesDropped .. => .warn
  | textureMissing .. => .warn
  | drawn .. => .debug
  | finished .. => .debug

/-- The wording of an overflow: how many of what there were, and how many are dropped. -/
def overflowText (label unit : String) (count limit : Nat) : String :=
  label ++ " batch overflow: " ++ count.repr ++ " " ++ unit ++ " exceed the limit of " ++ limit.repr
    ++ "; " ++ (count - limit).repr ++ " dropped"

/-- The wording of an event. `elapsed` is the time that the frame took, in milliseconds. -/
def text (elapsed : String) : LogEvent Float → String
  | instancesDropped pass count limit => overflowText pass.label "instances" count limit
  | verticesDropped count limit => overflowText Pass.paths.label "vertices" count limit
  | textureMissing pass texture =>
    "No atlas texture for " ++ pass.label ++ " batch (" ++ texture.text ++ "); skipped"
  | drawn pass count => pass.label ++ ": " ++ count.repr
  | finished width height batches =>
    elapsed ++ "ms (" ++ numberText (Float.ofNat width) ++ "x" ++ numberText (Float.ofNat height)
      ++ ", " ++ batches.repr ++ " batches)"

end LogEvent

/-- What a console shows of a message: everything under a common heading, and debug messages only
if they are wanted. -/
def consoleLine? (debug : Bool) (level : LogLevel) (message : String) :
    Option (LogLevel × String) :=
  match level with
  | .warn => some (.warn, "[render] " ++ message)
  | .debug => if debug then some (.debug, "[render] " ++ message) else none

end Raster
