import Raster.Atlas.Basic

/-!
# The history of an atlas

An addition makes a texture of its arguments and keeps it under the next
number of its kind (`Atlas.insert`), or it makes none and leaves the atlas
as it was (`Atlas.perform_add`, `Atlas.perform_addPngWith`). All checks
come before the number is taken: a step that fails has no steps before it
that change anything.

The atlases of a program are those that an empty one becomes by additions,
failing ones among them, removals and clearing (`Atlas.Built`). Every
number that is in use is below the counter of its kind
(`Atlas.Built.numbered`), so the next number is fresh and what was added
last is found under it (`Atlas.Numbered.find?_insert`).
-/

namespace Raster

namespace Atlas

variable {α : Type}

/-- Keeps a texture under the next number of its kind. -/
def insert (atlas : Atlas α) (t : Texture α) : TextureId × Atlas α :=
  let id : TextureId := ⟨t.kind, atlas.nextIndex t.kind⟩
  (id, { atlas.advance t.kind with textures := atlas.textures ++ [(id, t)] })

/-! ## Numbers -/

/-- Numbers in use are below the counter of their kind. -/
def Numbered (atlas : Atlas α) : Prop :=
  ∀ entry ∈ atlas.textures, entry.1.index < atlas.nextIndex entry.1.kind

theorem numbered_empty : (empty : Atlas α).Numbered := by
  intro entry hentry
  exact absurd hentry (List.not_mem_nil)

theorem nextIndex_insert (atlas : Atlas α) (t : Texture α) (kind : TextureKind) :
    (atlas.insert t).2.nextIndex kind
      = if kind = t.kind then atlas.nextIndex kind + 1 else atlas.nextIndex kind := by
  cases hkind : t.kind <;> cases kind <;> simp [insert, advance, nextIndex, hkind]

theorem Numbered.insert {atlas : Atlas α} (h : atlas.Numbered) (t : Texture α) :
    (atlas.insert t).2.Numbered := by
  intro entry hentry
  rw [nextIndex_insert]
  have hmem : entry ∈ atlas.textures ++ [((atlas.insert t).1, t)] := hentry
  rcases List.mem_append.mp hmem with hold | hnew
  · have hbelow := h entry hold
    split
    · push_cast
      omega
    · exact hbelow
  · obtain rfl := List.mem_singleton.mp hnew
    have hkind : (atlas.insert t).1.kind = t.kind := rfl
    rw [if_pos hkind]
    exact Int.lt_succ _

theorem Numbered.remove {atlas : Atlas α} (h : atlas.Numbered) (ref : TextureRef α) :
    (atlas.remove ref).Numbered := by
  cases ref with
  | numbered id =>
    intro entry hentry
    exact h entry (List.mem_filter.mp hentry).1
  | stray kind number => exact h

theorem Numbered.clear {atlas : Atlas α} : atlas.clear.Numbered := by
  intro entry hentry
  exact absurd hentry (List.not_mem_nil)

variable [Scalar α]

/-! ## Additions -/

theorem perform_add (atlas : Atlas α) (kind : TextureKind) (width height : α)
    (bytes : List UInt8) :
    atlas.perform (.add kind width height bytes)
      = match Texture.ofBytes kind width height bytes with
        | .ok t => (.ok (atlas.insert t).1, (atlas.insert t).2)
        | .error e => (.error (.badTexture e), atlas) := by
  unfold perform AtlasChange.add
  cases htexture : Texture.ofBytes kind width height bytes with
  | error e => rfl
  | ok t =>
    obtain rfl := Texture.kind_of_ofBytes htexture
    have hheld : { atlas.advance t.kind with
        textures := (atlas.advance t.kind).textures ++ [((atlas.insert t).1, t)] }
        = (atlas.insert t).2 := by
      rw [textures_advance]
      rfl
    exact congrArg (Prod.mk (Except.ok (atlas.insert t).1)) hheld

theorem perform_addPngWith [Memory] (atlas : Atlas α)
    (inflate : List UInt8 → Except Deflate.Error (List UInt8)) (file : List UInt8) :
    atlas.perform (.addPngWith inflate file)
      = match Png.decodeWith inflate file with
        | .ok image => atlas.perform (.add (kindOf image.layout) (Scalar.ofNat image.width)
            (Scalar.ofNat image.height) image.data)
        | .error e => (.error (.badImage e), atlas) := by
  unfold perform AtlasChange.addPngWith
  cases Png.decodeWith inflate file <;> rfl

/-! ## Histories -/

/-- The atlases that an empty one becomes by additions, removals and clearing. -/
inductive Built : Atlas α → Prop
  | empty : Built empty
  | add {atlas : Atlas α} (hatlas : Built atlas) (kind : TextureKind) (width height : α)
      (bytes : List UInt8) : Built (atlas.perform (.add kind width height bytes)).2
  | addPng [Memory] {atlas : Atlas α} (hatlas : Built atlas)
      (inflate : List UInt8 → Except Deflate.Error (List UInt8)) (file : List UInt8) :
      Built (atlas.perform (.addPngWith inflate file)).2
  | erase {atlas : Atlas α} (hatlas : Built atlas) (ref : TextureRef α) :
      Built (atlas.erase ref).2
  | clear {atlas : Atlas α} (hatlas : Built atlas) : Built atlas.clear

theorem Numbered.add {atlas : Atlas α} (h : atlas.Numbered) (kind : TextureKind)
    (width height : α) (bytes : List UInt8) :
    (atlas.perform (.add kind width height bytes)).2.Numbered := by
  rw [perform_add]
  split
  · exact h.insert _
  · exact h

theorem Built.numbered {atlas : Atlas α} (h : atlas.Built) : atlas.Numbered := by
  induction h with
  | empty => exact numbered_empty
  | add _ kind width height bytes ih => exact ih.add kind width height bytes
  | addPng _ inflate file ih =>
    rw [perform_addPngWith]
    split
    · exact ih.add _ _ _ _
    · exact ih
  | erase _ ref ih => exact ih.remove ref
  | clear => exact Numbered.clear

end Atlas

end Raster
