import Raster.Atlas.Texture
import Raster.Png.Image

/-!
# The atlas

Textures under identifiers. Each kind of texture numbers its own from 0,
and a number is never given out again: removing a texture, or all of them,
leaves the counters alone.

Additions can fail. They are written as changes of the atlas step by step
(`AtlasChange`), and what was done before a step fails stays done. A number
is given out only after all checks, so nothing was.

Callers refer to a texture by its kind and any number (`TextureRef`); a
number that is not whole refers to nothing.
-/

namespace Raster

/-- A texture's kind and its number among those of its kind. -/
structure TextureId where
  kind : TextureKind
  index : Int
  deriving Repr, DecidableEq, Inhabited

/-- A caller's word for a texture: an identifier, or a kind with a number that is not whole and
so identifies nothing. -/
inductive TextureRef (α : Type) where
  | numbered (id : TextureId)
  | stray (kind : TextureKind) (number : α)
  deriving Repr, DecidableEq, Inhabited

namespace TextureRef

variable {α : Type}

def ofNumber [Scalar α] (kind : TextureKind) (number : α) : TextureRef α :=
  match Scalar.toInt? number with
  | some index => .numbered ⟨kind, index⟩
  | none => .stray kind number

/-- Whether two references say the same. A number that differs from itself makes a reference that
does, too. -/
def agrees [BEq α] : TextureRef α → TextureRef α → Bool
  | numbered i, numbered j => i == j
  | stray kind x, stray kind' y => kind == kind' && x == y
  | _, _ => false

end TextureRef

structure Atlas (α : Type) where
  textures : List (TextureId × Texture α)
  nextMonochrome : Nat
  nextPolychrome : Nat

inductive AtlasError (α : Type) where
  | badTexture (error : TextureError α)
  | badImage (error : Png.Error)
  | unknownTexture (ref : TextureRef α)
  deriving Repr, DecidableEq

namespace Atlas

variable {α : Type}

def empty : Atlas α := ⟨[], 0, 0⟩

def nextIndex (atlas : Atlas α) : TextureKind → Nat
  | .monochrome => atlas.nextMonochrome
  | .polychrome => atlas.nextPolychrome

def advance (atlas : Atlas α) : TextureKind → Atlas α
  | .monochrome => { atlas with nextMonochrome := atlas.nextMonochrome + 1 }
  | .polychrome => { atlas with nextPolychrome := atlas.nextPolychrome + 1 }

@[simp] theorem textures_advance (atlas : Atlas α) (kind : TextureKind) :
    (atlas.advance kind).textures = atlas.textures := by
  cases kind <;> rfl

/-- A gray image is a monochrome texture, one with colours a polychrome one. -/
def kindOf : Png.Layout → TextureKind
  | .gray => .monochrome
  | .rgba => .polychrome

def find? (atlas : Atlas α) : TextureRef α → Option (Texture α)
  | .numbered id => atlas.textures.lookup id
  | .stray .. => none

def contains (atlas : Atlas α) (ref : TextureRef α) : Bool := (atlas.find? ref).isSome

def remove (atlas : Atlas α) : TextureRef α → Atlas α
  | .numbered id => { atlas with textures := atlas.textures.filter (·.1 ≠ id) }
  | .stray .. => atlas

/-- Drops a texture, and says whether it was there. -/
def erase (atlas : Atlas α) (ref : TextureRef α) : Bool × Atlas α :=
  (atlas.contains ref, atlas.remove ref)

def clear (atlas : Atlas α) : Atlas α := { atlas with textures := [] }

def size (atlas : Atlas α) : Nat := atlas.textures.length

/-- The texture that a reference finds, which must be held. -/
def get (atlas : Atlas α) (ref : TextureRef α) : Except (AtlasError α) (Texture α) :=
  match atlas.find? ref with
  | some t => .ok t
  | none => .error (.unknownTexture ref)

variable [Scalar α]

def dimensions (atlas : Atlas α) (ref : TextureRef α) : Except (AtlasError α) (Size α) :=
  (atlas.get ref).map Texture.dimensions

def sample (atlas : Atlas α) (ref : TextureRef α) (uv : Point α) :
    Except (AtlasError α) (Rgba α) :=
  (atlas.get ref).map (·.sample uv)

end Atlas

/-! ## Additions -/

/-- A change of an atlas that may fail, and leaves an atlas whether it does or not. -/
abbrev AtlasChange (α β : Type) := ExceptT (AtlasError α) (StateM (Atlas α)) β

/-- What a change answers, and the atlas that it leaves. -/
def Atlas.perform {α β : Type} (atlas : Atlas α) (change : AtlasChange α β) :
    Except (AtlasError α) β × Atlas α :=
  change.run.run atlas

namespace AtlasChange

variable {α : Type}

/-- Gives out the next number of a kind. -/
def takeNumber (kind : TextureKind) : AtlasChange α Nat :=
  modifyGet fun atlas => (atlas.nextIndex kind, atlas.advance kind)

def hold (id : TextureId) (t : Texture α) : AtlasChange α Unit :=
  modify fun atlas => { atlas with textures := atlas.textures ++ [(id, t)] }

variable [Scalar α]

/-- Adds a texture under the next number of its kind. -/
def add (kind : TextureKind) (width height : α) (bytes : List UInt8) :
    AtlasChange α TextureId := do
  let t ← MonadExcept.ofExcept ((Texture.ofBytes kind width height bytes).mapError .badTexture)
  let id : TextureId := ⟨kind, ← takeNumber kind⟩
  hold id t
  return id

variable [Memory]

/-- Adds a texture from a PNG file whose data `inflate` recovers. -/
def addPngWith (inflate : List UInt8 → Except Deflate.Error (List UInt8)) (file : List UInt8) :
    AtlasChange α TextureId := do
  let image ← MonadExcept.ofExcept ((Png.decodeWith inflate file).mapError .badImage)
  add (Atlas.kindOf image.layout) (Scalar.ofNat image.width) (Scalar.ofNat image.height) image.data

def addPng (file : List UInt8) : AtlasChange α TextureId := addPngWith Deflate.inflate file

end AtlasChange

end Raster
