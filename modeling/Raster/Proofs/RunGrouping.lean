import Raster.Proofs.Batching

/-!
# Batches are maximal runs

Grouping is told by two things that a primitive shows: its kind, and for a
sprite the texture of its tile. The members of the batches, one batch after
the other, are the primitives that were submitted; no batch is empty; the
members of a batch have its kind and its texture; and two neighbouring
batches differ in one of these, so that no run could have been longer
(`Primitive.batches_are_maximal_runs`).

A run is compared with its first primitive throughout and the members are
picked out of it again by kind. That the picking drops nothing is
`Primitive.exists_batchOfRun`; the rest follows the recursion of
`Primitive.runs`, one run at a time (`Primitive.exists_batches_cons`).
-/

namespace Raster

variable {α : Type}

/-- What a primitive is, whatever its data. -/
inductive PrimitiveKind where
  | quad
  | shadow
  | monochromeSprite
  | polychromeSprite
  | path
  | underline
  deriving Repr, DecidableEq

/-! ## Textures -/

/-- References to one texture: the same identifier, or stray numbers of one kind that compare equal.
A number that differs from itself does not match itself, either. -/
inductive TextureRef.Matches [BEq α] : TextureRef α → TextureRef α → Prop
  | numbered (id : TextureId) : Matches (.numbered id) (.numbered id)
  | stray (kind : TextureKind) {x y : α} (h : (x == y) = true) :
    Matches (.stray kind x) (.stray kind y)

theorem TextureRef.agrees_iff_matches [BEq α] {r s : TextureRef α} :
    r.agrees s = true ↔ r.Matches s := by
  constructor
  · intro h
    cases r with
    | numbered i =>
      cases s with
      | numbered j =>
        obtain rfl : i = j := by simpa [agrees] using h
        exact .numbered i
      | stray kind y => cases h
    | stray kind x =>
      cases s with
      | numbered j => cases h
      | stray kind' y =>
        obtain ⟨rfl, hxy⟩ : kind = kind' ∧ (x == y) = true := by simpa [agrees] using h
        exact .stray kind hxy
  · rintro (i | ⟨kind, hxy⟩)
    · simp [agrees]
    · simp [agrees, hxy]

/-! ## What primitives and batches show -/

namespace Primitive

def kind : Primitive α → PrimitiveKind
  | quad _ => .quad
  | shadow _ => .shadow
  | monochromeSprite _ => .monochromeSprite
  | polychromeSprite _ => .polychromeSprite
  | path _ => .path
  | underline _ => .underline

/-- The texture of a sprite's tile. -/
def texture? : Primitive α → Option (TextureRef α)
  | monochromeSprite s => some s.tile.texture
  | polychromeSprite s => some s.tile.texture
  | _ => none

end Primitive

namespace Batch

/-- The primitives of a batch, in the order of submission. -/
def members : Batch α → List (Primitive α)
  | quads qs => qs.map .quad
  | shadows ss => ss.map .shadow
  | monochromeSprites _ ss => ss.map .monochromeSprite
  | polychromeSprites _ ss => ss.map .polychromeSprite
  | paths ps => ps.map .path
  | underlines us => us.map .underline

def kind : Batch α → PrimitiveKind
  | quads _ => .quad
  | shadows _ => .shadow
  | monochromeSprites .. => .monochromeSprite
  | polychromeSprites .. => .polychromeSprite
  | paths _ => .path
  | underlines _ => .underline

def texture? : Batch α → Option (TextureRef α)
  | monochromeSprites texture _ => some texture
  | polychromeSprites texture _ => some texture
  | _ => none

/-- Batches that could not be one: they differ in kind, or are sprites with different textures. -/
def Apart [BEq α] (b c : Batch α) : Prop :=
  b.kind ≠ c.kind ∨ ∃ t ∈ b.texture?, ∃ u ∈ c.texture?, ¬ t.Matches u

end Batch

namespace Primitive

/-! ## One run -/

theorem joins_iff [BEq α] {p q : Primitive α} :
    p.joins q = true ↔ p.kind = q.kind ∧ ∀ t ∈ p.texture?, ∃ u ∈ q.texture?, t.Matches u := by
  cases p <;> cases q <;> simp [joins, kind, texture?, TextureRef.agrees_iff_matches]

theorem not_joins_iff [BEq α] {p q : Primitive α} :
    p.joins q = false ↔ p.kind ≠ q.kind ∨ ∃ t ∈ p.texture?, ∃ u ∈ q.texture?, ¬ t.Matches u := by
  rw [← Bool.not_eq_true, joins_iff]
  cases p <;> cases q <;> simp [kind, texture?]

/-- Picking the primitives of a kind out of a run of that kind drops none. -/
theorem map_filterMap_of_kind {β : Type} (make : β → Primitive α) (get? : Primitive α → Option β)
    {k : PrimitiveKind} (hback : ∀ p : Primitive α, p.kind = k → (get? p).map make = some p)
    {run : List (Primitive α)} (hrun : ∀ p ∈ run, p.kind = k) :
    (run.filterMap get?).map make = run := by
  rw [List.map_filterMap, List.filterMap_congr fun p hp => hback p (hrun p hp)]
  exact List.filterMap_some

/-- A run of one kind is a batch of all its primitives, with the texture of the first. -/
theorem exists_batchOfRun {first : Primitive α} {rest : List (Primitive α)}
    (hrest : ∀ p ∈ rest, p.kind = first.kind) :
    ∃ batch, batchOfRun (first :: rest) = some batch ∧ batch.members = first :: rest
      ∧ batch.kind = first.kind ∧ batch.texture? = first.texture? := by
  have hrun : ∀ p ∈ first :: rest, p.kind = first.kind := by
    intro p hp
    rcases List.mem_cons.mp hp with rfl | hp
    · rfl
    · exact hrest p hp
  refine ⟨_, rfl, ?_⟩
  cases first with
  | quad q =>
    have hback : ∀ p : Primitive α, p.kind = .quad → (quad? p).map quad = some p := by
      intro p hp
      cases p <;> cases hp
      rfl
    exact ⟨map_filterMap_of_kind quad quad? hback hrun, rfl, rfl⟩
  | shadow s =>
    have hback : ∀ p : Primitive α, p.kind = .shadow → (shadow? p).map shadow = some p := by
      intro p hp
      cases p <;> cases hp
      rfl
    exact ⟨map_filterMap_of_kind shadow shadow? hback hrun, rfl, rfl⟩
  | monochromeSprite s =>
    have hback : ∀ p : Primitive α, p.kind = .monochromeSprite →
        (monochromeSprite? p).map monochromeSprite = some p := by
      intro p hp
      cases p <;> cases hp
      rfl
    exact ⟨map_filterMap_of_kind monochromeSprite monochromeSprite? hback hrun, rfl, rfl⟩
  | polychromeSprite s =>
    have hback : ∀ p : Primitive α, p.kind = .polychromeSprite →
        (polychromeSprite? p).map polychromeSprite = some p := by
      intro p hp
      cases p <;> cases hp
      rfl
    exact ⟨map_filterMap_of_kind polychromeSprite polychromeSprite? hback hrun, rfl, rfl⟩
  | path p =>
    have hback : ∀ p : Primitive α, p.kind = .path → (path? p).map path = some p := by
      intro p hp
      cases p <;> cases hp
      rfl
    exact ⟨map_filterMap_of_kind path path? hback hrun, rfl, rfl⟩
  | underline u =>
    have hback : ∀ p : Primitive α, p.kind = .underline →
        (underline? p).map underline = some p := by
      intro p hp
      cases p <;> cases hp
      rfl
    exact ⟨map_filterMap_of_kind underline underline? hback hrun, rfl, rfl⟩

variable [BEq α]

/-- The first batch is the longest run that the first primitive begins; the others group what is
left. -/
theorem exists_batches_cons (first : Primitive α) (rest : List (Primitive α)) :
    ∃ batch, batches (first :: rest) = batch :: batches (rest.dropWhile first.joins)
      ∧ batch.members = first :: rest.takeWhile first.joins
      ∧ batch.kind = first.kind ∧ batch.texture? = first.texture? := by
  have hkind : ∀ p ∈ rest.takeWhile first.joins, p.kind = first.kind := fun p hp =>
    (joins_iff.mp (List.mem_takeWhile_imp hp)).1.symm
  obtain ⟨batch, hbatch, hmembers, hkind, htexture⟩ := exists_batchOfRun hkind
  refine ⟨batch, ?_, hmembers, hkind, htexture⟩
  rw [batches, runs, List.filterMap_cons_some hbatch, batches]

/-! ## All runs -/

/-- Grouping neither loses nor repeats nor moves a primitive. -/
theorem flatMap_members_batches (ps : List (Primitive α)) :
    (batches ps).flatMap Batch.members = ps := by
  induction ps using runs.induct with
  | case1 => simp [batches, runs]
  | case2 first rest ih =>
    obtain ⟨batch, hbatches, hmembers, -⟩ := exists_batches_cons first rest
    rw [hbatches, List.flatMap_cons, hmembers, ih, List.cons_append,
      List.takeWhile_append_dropWhile]

/-- Each batch is a primitive followed by others that join it. -/
theorem run_of_mem_batches {ps : List (Primitive α)} {batch : Batch α} (h : batch ∈ batches ps) :
    ∃ first rest, batch.members = first :: rest ∧ (∀ p ∈ rest, first.joins p = true)
      ∧ batch.kind = first.kind ∧ batch.texture? = first.texture? := by
  induction ps using runs.induct with
  | case1 => simp [batches, runs] at h
  | case2 first rest ih =>
    obtain ⟨batch', hbatches, hmembers, hkind, htexture⟩ := exists_batches_cons first rest
    rw [hbatches] at h
    rcases List.mem_cons.mp h with rfl | h
    · exact ⟨first, _, hmembers, fun p hp => List.mem_takeWhile_imp hp, hkind, htexture⟩
    · exact ih h

/-- The members of a batch are of its kind, and sprites have its texture. -/
theorem shows_of_mem_batches {ps : List (Primitive α)} {batch : Batch α}
    (hbatch : batch ∈ batches ps) {p : Primitive α} (hp : p ∈ batch.members) :
    p.kind = batch.kind ∧ ∀ t ∈ batch.texture?, ∃ u ∈ p.texture?, t = u ∨ t.Matches u := by
  obtain ⟨first, rest, hmembers, hjoins, hkind, htexture⟩ := run_of_mem_batches hbatch
  rw [hkind, htexture]
  rw [hmembers] at hp
  rcases List.mem_cons.mp hp with rfl | hp
  · exact ⟨rfl, fun t ht => ⟨t, ht, Or.inl rfl⟩⟩
  · obtain ⟨hsame, htextures⟩ := joins_iff.mp (hjoins p hp)
    refine ⟨hsame.symm, fun t ht => ?_⟩
    obtain ⟨u, hu, hmatches⟩ := htextures t ht
    exact ⟨u, hu, Or.inr hmatches⟩

/-- A batch ends only where the next primitive does not join it. -/
theorem isChain_apart_batches (ps : List (Primitive α)) : (batches ps).IsChain Batch.Apart := by
  induction ps using runs.induct with
  | case1 => simp [batches, runs]
  | case2 first rest ih =>
    obtain ⟨batch, hbatches, -, hkind, htexture⟩ := exists_batches_cons first rest
    rw [hbatches]
    cases hdrop : rest.dropWhile first.joins with
    | nil => simp [batches, runs]
    | cons second rest' =>
      have hstops : first.joins second = false := by
        have hhead := List.head?_dropWhile_not first.joins rest
        rw [hdrop] at hhead
        simpa using hhead
      obtain ⟨next, hnext, -, hkind', htexture'⟩ := exists_batches_cons second rest'
      rw [hdrop, hnext] at ih
      rw [hnext]
      refine ih.cons_cons ?_
      rw [Batch.Apart, hkind, htexture, hkind', htexture']
      exact not_joins_iff.mp hstops

/-- Batches are the maximal runs of a list. -/
theorem batches_are_maximal_runs (ps : List (Primitive α)) :
    (batches ps).flatMap Batch.members = ps
      ∧ (∀ batch ∈ batches ps, batch.members ≠ [])
      ∧ (∀ batch ∈ batches ps, ∀ p ∈ batch.members,
          p.kind = batch.kind ∧ ∀ t ∈ batch.texture?, ∃ u ∈ p.texture?, t = u ∨ t.Matches u)
      ∧ (batches ps).IsChain Batch.Apart := by
  refine ⟨flatMap_members_batches ps, fun batch hbatch => ?_,
    fun batch hbatch p hp => shows_of_mem_batches hbatch hp, isChain_apart_batches ps⟩
  obtain ⟨first, rest, hmembers, -⟩ := run_of_mem_batches hbatch
  rw [hmembers]
  exact List.cons_ne_nil first rest

end Primitive

end Raster
