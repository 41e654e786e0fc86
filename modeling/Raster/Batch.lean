import Raster.Log
import Raster.Primitive.Path
import Raster.Primitive.Quad
import Raster.Primitive.Shadow
import Raster.Primitive.Sprite
import Raster.Primitive.Underline

/-!
# Batches

Primitives are submitted as one list and drawn in batches: maximal runs of
one kind, and for sprites of one texture (`Primitive.runs`). Nothing is
sorted.

`Batch.plan` says what drawing a batch comes to under given options and
with a given atlas: the items to draw, in order, and the log. Each pass
over a batch keeps at most the permitted number of instances.
-/

namespace Raster

inductive Primitive (α : Type) where
  | quad (quad : Quad α)
  | shadow (shadow : Shadow α)
  | monochromeSprite (sprite : MonochromeSprite α)
  | polychromeSprite (sprite : PolychromeSprite α)
  | path (path : Path α)
  | underline (underline : Underline α)
  deriving Repr, DecidableEq

inductive Batch (α : Type) where
  | quads (quads : List (Quad α))
  | shadows (shadows : List (Shadow α))
  | monochromeSprites (texture : TextureRef α) (sprites : List (MonochromeSprite α))
  | polychromeSprites (texture : TextureRef α) (sprites : List (PolychromeSprite α))
  | paths (paths : List (Path α))
  | underlines (underlines : List (Underline α))
  deriving Repr, DecidableEq

/-- What is drawn at one time: an instance of a batch, or a triangle of a path. -/
inductive Item (α : Type) where
  | quad (quad : Quad α)
  | shadow (shadow : Shadow α)
  | monochromeSprite (sprite : MonochromeSprite α)
  | polychromeSprite (sprite : PolychromeSprite α)
  | triangle (triangle : Triangle α)
  | underline (underline : Underline α)
  deriving Repr, DecidableEq

/-! ## Grouping -/

namespace Primitive

variable {α : Type}

/-- Whether the second primitive may be in a run that the first begins. -/
def joins [BEq α] : Primitive α → Primitive α → Bool
  | quad _, quad _ => true
  | shadow _, shadow _ => true
  | monochromeSprite s, monochromeSprite t => s.tile.texture.agrees t.tile.texture
  | polychromeSprite s, polychromeSprite t => s.tile.texture.agrees t.tile.texture
  | path _, path _ => true
  | underline _, underline _ => true
  | _, _ => false

def quad? : Primitive α → Option (Quad α)
  | quad q => some q
  | _ => none

def shadow? : Primitive α → Option (Shadow α)
  | shadow s => some s
  | _ => none

def monochromeSprite? : Primitive α → Option (MonochromeSprite α)
  | monochromeSprite s => some s
  | _ => none

def polychromeSprite? : Primitive α → Option (PolychromeSprite α)
  | polychromeSprite s => some s
  | _ => none

def path? : Primitive α → Option (Path α)
  | path p => some p
  | _ => none

def underline? : Primitive α → Option (Underline α)
  | underline u => some u
  | _ => none

/-- The maximal runs of a list. A run goes on as long as its first primitive is joined. -/
def runs [BEq α] : List (Primitive α) → List (List (Primitive α))
  | [] => []
  | first :: rest =>
    (first :: rest.takeWhile first.joins) :: runs (rest.dropWhile first.joins)
termination_by primitives => primitives.length
decreasing_by exact Nat.lt_succ_of_le (List.dropWhile_sublist _).length_le

/-- The batch of a run: the first primitive decides its kind and texture. -/
def batchOfRun : List (Primitive α) → Option (Batch α)
  | [] => none
  | first :: rest =>
    let run := first :: rest
    some <| match first with
    | quad _ => .quads (run.filterMap quad?)
    | shadow _ => .shadows (run.filterMap shadow?)
    | monochromeSprite s => .monochromeSprites s.tile.texture (run.filterMap monochromeSprite?)
    | polychromeSprite s => .polychromeSprites s.tile.texture (run.filterMap polychromeSprite?)
    | path _ => .paths (run.filterMap path?)
    | underline _ => .underlines (run.filterMap underline?)

def batches [BEq α] (primitives : List (Primitive α)) : List (Batch α) :=
  (runs primitives).filterMap batchOfRun

end Primitive

/-! ## Planning -/

/-- What drawing something comes to: items in drawing order, and log lines in order. -/
structure Plan (α : Type) where
  items : List (Item α)
  events : List (LogEvent α)
  deriving Repr, DecidableEq

namespace Plan

variable {α : Type}

def append (p q : Plan α) : Plan α := ⟨p.items ++ q.items, p.events ++ q.events⟩

/-- The debug line that counts the items of a pass, if there are any to count. -/
def countEvents (options : Options α) (pass : Pass) (count : Nat) : List (LogEvent α) :=
  if options.debug && decide (0 < count) then [.drawn pass count] else []

/-- A pass over instances: the first ones up to the limit, and a warning if any are dropped. -/
def ofPass {β : Type} (options : Options α) (pass : Pass) (item : β → Item α)
    (instances : List β) : Plan α :=
  let limit := options.maxInstances
  if limit < instances.length then
    { items := (instances.take limit).map item
      events := .instancesDropped pass instances.length limit :: countEvents options pass limit }
  else
    { items := instances.map item
      events := countEvents options pass instances.length }

/-- A pass over sprites: nothing but a warning if the atlas does not hold their texture. -/
def ofSprites {β : Type} (options : Options α) (atlas : Option (Atlas α)) (pass : Pass)
    (texture : TextureRef α) (item : β → Item α) (sprites : List β) : Plan α :=
  if (atlas.map (·.contains texture)).getD false then ofPass options pass item sprites
  else ⟨[], [.textureMissing pass texture]⟩

/-- The triangles of the vertices up to the limit, and a warning if any are dropped. -/
def ofPaths (options : Options α) (paths : List (Path α)) : Plan α :=
  let limit := options.maxPathVertices
  let count := Path.vertexCount paths
  let triangles := Triangle.ofRecords (Path.flatten paths (some limit))
  { items := triangles.map .triangle
    events := (if limit < count then [.verticesDropped count limit] else [])
      ++ countEvents options .paths triangles.length }

end Plan

/-- What drawing a batch comes to. Straight underlines are drawn before wavy ones. -/
def Batch.plan {α : Type} (options : Options α) (atlas : Option (Atlas α)) : Batch α → Plan α
  | quads qs => Plan.ofPass options .quads .quad qs
  | shadows ss => Plan.ofPass options .shadows .shadow ss
  | monochromeSprites texture ss =>
    Plan.ofSprites options atlas .monochromeSprites texture .monochromeSprite ss
  | polychromeSprites texture ss =>
    Plan.ofSprites options atlas .polychromeSprites texture .polychromeSprite ss
  | paths ps => Plan.ofPaths options ps
  | underlines us =>
    (Plan.ofPass options .straightUnderlines .underline (us.filter (!·.wavy))).append
      (Plan.ofPass options .wavyUnderlines .underline (us.filter (·.wavy)))

/-! ## Painting -/

/-- An item ready to be drawn: where, and with which colour at each point. -/
structure Paint (α : Type) where
  rasterBounds : Bounds α
  colorAt : Point α → Rgba α

variable {α : Type} [Scalar α]

/-- The first stage of an item, with the second stage waiting for points. -/
def Item.paint (ctx : FrameContext α) : Item α → Paint α
  | quad q =>
    let projection := q.project ctx
    ⟨projection.rasterBounds, fun p => q.evaluate projection.varying p ctx⟩
  | shadow s =>
    let projection := s.project ctx
    ⟨projection.rasterBounds, fun p => s.evaluate projection.varying p ctx⟩
  | monochromeSprite s =>
    let projection := s.project ctx
    ⟨projection.rasterBounds, fun p => s.evaluate projection.varying p ctx⟩
  | polychromeSprite s =>
    let projection := s.project ctx
    ⟨projection.rasterBounds, fun p => s.evaluate projection.varying p ctx⟩
  | triangle t =>
    let projection := t.project ctx
    ⟨projection.rasterBounds, fun p => t.evaluate projection.varying p ctx⟩
  | underline u =>
    let projection := u.project ctx
    ⟨projection.rasterBounds, fun p => u.evaluate projection.varying p ctx⟩

end Raster
