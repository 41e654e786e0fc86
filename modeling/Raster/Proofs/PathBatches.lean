import Raster.Scalar.Real
import Raster.Proofs.Limits

/-!
# Paths that share a batch

The vertices of all paths of a batch are put in one list and grouped in threes.
Vertices that a path has over after its last whole triangle are not dropped
where the path ends: they are the first vertices of what follows
(`Path.ofRecords_flatten_cons`). So the triangles of a batch are those of its
paths, each path drawn alone, if what the first such path has over is never
completed (`Path.Separable`), and for other numbers of vertices there are
paths for which they are not (`Path.batch_separates_iff`).

Two paths of four and three vertices are enough
(`Path.leftover_vertex_shifts_next_path`): the second one disappears, and what
is drawn in its place has a vertex, the clip and the colours of the first.
-/

namespace Raster

variable {α : Type}

/-! ## Leftover records -/

namespace Triangle

/-- The records after the last whole triangle. -/
def leftover (records : List (VertexRecord α)) : List (VertexRecord α) :=
  records.drop (3 * (records.length / 3))

theorem length_leftover (records : List (VertexRecord α)) :
    (leftover records).length = records.length % 3 := by
  rw [leftover, List.length_drop]
  omega

theorem ofRecords_eq_nil {records : List (VertexRecord α)} (h : records.length < 3) :
    ofRecords records = [] := by
  rw [← List.length_eq_zero_iff, length_ofRecords]
  omega

/-- What is left over of some records comes before the next ones. -/
theorem ofRecords_append_leftover (xs ys : List (VertexRecord α)) :
    ofRecords (xs ++ ys) = ofRecords xs ++ ofRecords (leftover xs ++ ys) := by
  induction xs using ofRecords.induct with
  | case1 a b c rest ih =>
    have hleftover : leftover (a :: b :: c :: rest) = leftover rest := by
      have hplace : 3 * ((rest.length + 3) / 3) = 3 * (rest.length / 3) + 3 := by omega
      show (a :: b :: c :: rest).drop (3 * ((rest.length + 3) / 3)) = _
      rw [hplace]
      rfl
    simp only [List.cons_append, ofRecords, hleftover, ih]
  | case2 xs hshort =>
    have hlength : xs.length < 3 := by
      rcases xs with _ | ⟨a, _ | ⟨b, _ | ⟨c, rest⟩⟩⟩
      · simp
      · simp
      · simp
      · exact absurd rfl (hshort a b c rest)
    have hall : leftover xs = xs := by
      rw [leftover, Nat.div_eq_of_lt hlength]
      rfl
    rw [ofRecords_eq_nil hlength, hall, List.nil_append]

end Triangle

/-! ## Paths -/

namespace Path

/-- A vertex of a path with the path's clip, bounds and fill. -/
def record (path : Path α) (v : PathVertex α) : VertexRecord α :=
  ⟨v.position, v.curve, path.contentMask, path.bounds, path.fill⟩

theorem length_records (path : Path α) : path.records.length = path.vertices.length :=
  List.length_map ..

theorem length_flatten (paths : List (Path α)) :
    (flatten paths none).length = (paths.map (·.vertices.length)).sum :=
  (length_flatMap_records paths).trans List.length_flatMap

theorem flatten_singleton (path : Path α) : flatten [path] none = path.records :=
  List.flatMap_singleton ..

/-- The triangles of a path come first, then its leftover vertices are grouped with the vertices
of the paths that follow. -/
theorem ofRecords_flatten_cons (path : Path α) (rest : List (Path α)) :
    Triangle.ofRecords (flatten (path :: rest) none)
      = Triangle.ofRecords (flatten [path] none)
        ++ Triangle.ofRecords (Triangle.leftover path.records ++ flatten rest none) := by
  rw [flatten_singleton]
  exact Triangle.ofRecords_append_leftover path.records (flatten rest none)

/-- Whether numbers of vertices keep the paths of a batch apart: what the first path with leftover
vertices has over is not completed by the vertices of the paths that follow. -/
def Separable : List Nat → Prop
  | [] => True
  | n :: rest => if 3 ∣ n then Separable rest else n % 3 + rest.sum < 3

instance decidableSeparable : DecidablePred Separable
  | [] => .isTrue trivial
  | n :: rest =>
    have := decidableSeparable rest
    inferInstanceAs (Decidable (if 3 ∣ n then Separable rest else n % 3 + rest.sum < 3))

/-- The triangles of a batch are those of its paths, path by path. -/
def Separate (paths : List (Path α)) : Prop :=
  Triangle.ofRecords (flatten paths none)
    = paths.flatMap fun path => Triangle.ofRecords (flatten [path] none)

theorem leftover_of_dvd {path : Path α} (h : 3 ∣ path.vertices.length) :
    Triangle.leftover path.records = [] := by
  rw [← List.length_eq_zero_iff, Triangle.length_leftover, length_records]
  exact Nat.mod_eq_zero_of_dvd h

/-- A path without leftover vertices can be taken off. -/
theorem separate_cons_iff_of_dvd {path : Path α} (h : 3 ∣ path.vertices.length)
    (rest : List (Path α)) : Separate (path :: rest) ↔ Separate rest := by
  rw [Separate, ofRecords_flatten_cons, leftover_of_dvd h, List.nil_append, List.flatMap_cons,
    List.append_right_inj]
  rfl

/-- Fewer than three vertices make no triangle, neither together nor path by path. -/
theorem separate_of_few {path : Path α} {rest : List (Path α)}
    (h : path.vertices.length % 3 + (rest.map (·.vertices.length)).sum < 3) :
    Separate (path :: rest) := by
  have htogether : Triangle.ofRecords (Triangle.leftover path.records ++ flatten rest none) = [] := by
    refine Triangle.ofRecords_eq_nil ?_
    rwa [List.length_append, Triangle.length_leftover, length_records, length_flatten]
  have halone : (rest.flatMap fun path => Triangle.ofRecords (flatten [path] none)) = [] := by
    refine List.flatMap_eq_nil_iff.mpr fun q hq => Triangle.ofRecords_eq_nil ?_
    have hle := List.le_sum_of_mem (List.mem_map_of_mem (f := (·.vertices.length)) hq)
    rw [flatten_singleton, length_records]
    omega
  rw [Separate, ofRecords_flatten_cons, htogether, List.flatMap_cons, halone]

theorem separate_of_separable {paths : List (Path α)}
    (h : Separable (paths.map (·.vertices.length))) : Separate paths := by
  induction paths with
  | nil => rfl
  | cons path rest ih =>
    rw [List.map_cons, Separable] at h
    split at h
    next hwhole => exact (separate_cons_iff_of_dvd hwhole rest).mpr (ih h)
    next => exact separate_of_few h

end Path

/-! ## Owners -/

/-- Whether a triangle has three consecutive vertices of a path, with the path's clip, bounds and
fill. -/
def Triangle.OwnedBy (t : Triangle α) (path : Path α) : Prop :=
  ∃ i, ∃ hi : 3 * i + 2 < path.vertices.length,
    t = ⟨path.record path.vertices[3 * i], path.record path.vertices[3 * i + 1],
      path.record path.vertices[3 * i + 2]⟩

namespace Path

theorem ownedBy_of_mem {path : Path α} {t : Triangle α}
    (ht : t ∈ Triangle.ofRecords (flatten [path] none)) : t.OwnedBy path := by
  rw [flatten_singleton] at ht
  obtain ⟨i, hi⟩ := List.mem_iff_getElem?.mp ht
  have hplace : 3 * i + 2 < path.records.length := by
    have hlt := (List.getElem?_eq_some_iff.mp hi).1
    rw [Triangle.length_ofRecords] at hlt
    omega
  rw [Triangle.getElem_ofRecords hplace] at hi
  refine ⟨i, path.length_records ▸ hplace, ?_⟩
  rw [← Option.some.inj hi]
  simp only [records, List.getElem_map, record]

theorem exists_owner {paths : List (Path α)} {t : Triangle α}
    (ht : t ∈ paths.flatMap fun path => Triangle.ofRecords (flatten [path] none)) :
    ∃ path ∈ paths, t.OwnedBy path := by
  obtain ⟨path, hpath, ht⟩ := List.mem_flatMap.mp ht
  exact ⟨path, hpath, ownedBy_of_mem ht⟩

/-! ## Which numbers of vertices keep paths apart -/

section
variable [Inhabited α]

/-- A path of some vertices that can be told by its fill. -/
def filled (fill : Fill α) (n : Nat) : Path α :=
  { (default : Path α) with fill, vertices := List.replicate n default }

theorem length_vertices_filled (fill : Fill α) (n : Nat) :
    (filled fill n).vertices.length = n :=
  List.length_replicate

/-- Leftover vertices that are completed make a triangle that starts with the path's last ones and
comes where a later path's triangles should. -/
theorem few_of_separate {n : Nat} {rest : List Nat} (hleftover : ¬ 3 ∣ n)
    (h : Separate (filled (α := α) (.linear default) n :: rest.map (filled (.solid default)))) :
    n % 3 + rest.sum < 3 := by
  by_contra hmany
  let first := filled (α := α) (.linear default) n
  let others := rest.map (filled (α := α) (.solid default))
  let shared := Triangle.leftover first.records ++ flatten others none
  have hcount : (Triangle.leftover first.records).length = n % 3 := by
    rw [Triangle.length_leftover, length_records, length_vertices_filled]
  have hothers : (flatten others none).length = rest.sum := by
    have hlengths : others.map (·.vertices.length) = rest := by
      simp only [others, List.map_map, Function.comp_def, length_vertices_filled, List.map_id']
    rw [length_flatten, hlengths]
  have hshared : 3 * 0 + 2 < shared.length := by
    rw [List.length_append, hcount, hothers]
    omega
  -- the first triangle of the shared vertices starts with a vertex of the first path
  obtain ⟨t, ht, hfirst⟩ : ∃ t ∈ Triangle.ofRecords shared, t.a.fill = .linear default := by
    refine ⟨_, List.mem_of_getElem? (Triangle.getElem_ofRecords hshared), ?_⟩
    have hmem : shared[3 * 0] ∈ first.records := by
      have hinside : 3 * 0 < (Triangle.leftover first.records).length := by
        rw [hcount]
        omega
      rw [List.getElem_append_left hinside]
      exact List.mem_of_mem_drop (List.getElem_mem hinside)
    obtain ⟨v, -, hv⟩ := List.mem_map.mp hmem
    exact congrArg VertexRecord.fill hv.symm
  rw [Separate, ofRecords_flatten_cons, List.flatMap_cons, List.append_right_inj] at h
  rw [h] at ht
  obtain ⟨path, hpath, i, hi, rfl⟩ := exists_owner ht
  obtain ⟨m, -, rfl⟩ := List.mem_map.mp hpath
  cases hfirst

theorem separable_of_separate {counts : List Nat}
    (h : ∀ paths : List (Path α), paths.map (·.vertices.length) = counts → Separate paths) :
    Separable counts := by
  induction counts with
  | nil => trivial
  | cons n rest ih =>
    rw [Separable]
    split
    next hwhole =>
      refine ih fun paths hpaths => ?_
      have hn := length_vertices_filled (α := α) (.solid default) n
      refine (separate_cons_iff_of_dvd (hn.symm ▸ hwhole) paths).mp (h _ ?_)
      rw [List.map_cons, hpaths, hn]
    next hleftover =>
      refine few_of_separate (α := α) hleftover (h _ ?_)
      simp only [List.map_cons, List.map_map, Function.comp_def, length_vertices_filled,
        List.map_id']

/-- In a batch, the triangles of a path are followed by those of its leftover vertices and of the
paths that come next. So all batches of paths with given numbers of vertices have the triangles of
their paths, path by path, if and only if the numbers are separable. Then each triangle has three
consecutive vertices of one path, and that path's clip, bounds and fill. -/
theorem batch_separates_iff (counts : List Nat) :
    (∀ (path : Path α) (rest : List (Path α)),
        Triangle.ofRecords (flatten (path :: rest) none)
          = Triangle.ofRecords (flatten [path] none)
            ++ Triangle.ofRecords (Triangle.leftover path.records ++ flatten rest none))
      ∧ ((∀ paths : List (Path α), paths.map (·.vertices.length) = counts →
          Triangle.ofRecords (flatten paths none)
            = paths.flatMap fun path => Triangle.ofRecords (flatten [path] none))
        ↔ Separable counts)
      ∧ ∀ paths : List (Path α), Separable (paths.map (·.vertices.length)) →
          ∀ t ∈ Triangle.ofRecords (flatten paths none), ∃ path ∈ paths, t.OwnedBy path := by
  refine ⟨ofRecords_flatten_cons, ⟨separable_of_separate, ?_⟩, ?_⟩
  · rintro hcounts paths rfl
    exact separate_of_separable hcounts
  · intro paths hcounts t ht
    rw [separate_of_separable hcounts] at ht
    exact exists_owner ht

end

/-! ## A path of three vertices and one of four -/

/-- A path of triangles with straight sides. -/
def ofCorners [Scalar α] (fill : Fill α) (corners : List (Point α)) : Path α :=
  ⟨⟨0, .of 0 0 20 20, .of 0 0 20 20⟩, fill, corners.map fun p => ⟨p, ⟨0, 1⟩⟩⟩

def redTriangle [Scalar α] : Path α :=
  ofCorners (.solid ⟨0, 1, 0.5, 1⟩) [⟨4, 4⟩, ⟨8, 4⟩, ⟨4, 8⟩]

/-- A triangle and a vertex that is left over. -/
def blackKite [Scalar α] : Path α :=
  ofCorners (.solid ⟨0, 0, 0, 1⟩) [⟨0, 0⟩, ⟨4, 0⟩, ⟨0, 4⟩, ⟨9, 9⟩]

/-- A vertex left over at the end of a batch is dropped. -/
theorem batch_separates_iff_leftover_last :
    let paths : List (Path ℝ) := [redTriangle, blackKite]
    Separable (paths.map (·.vertices.length))
      ∧ Triangle.ofRecords (flatten paths none)
        = Triangle.ofRecords (flatten [redTriangle] none)
          ++ Triangle.ofRecords (flatten [blackKite] none)
      ∧ ∀ t ∈ Triangle.ofRecords (flatten paths none), ∃ path ∈ paths, t.OwnedBy path := by
  intro paths
  have hcounts : Separable (paths.map (·.vertices.length)) :=
    (by decide : Separable [3, 4])
  obtain ⟨-, hseparate, howners⟩ := batch_separates_iff (α := ℝ) (paths.map (·.vertices.length))
  refine ⟨hcounts, (hseparate.mpr hcounts paths rfl).trans ?_, howners paths hcounts⟩
  simp only [paths, List.flatMap_cons, List.flatMap_nil, List.append_nil]

/-- A vertex left over before the end of a batch is drawn with two vertices of the next path, as a
triangle of the wrong path, and the next path is not drawn. -/
theorem leftover_vertex_shifts_next_path :
    let paths : List (Path ℝ) := [blackKite, redTriangle]
    let black : PathVertex ℝ → VertexRecord ℝ := record blackKite
    let red : PathVertex ℝ → VertexRecord ℝ := record redTriangle
    Triangle.ofRecords (flatten paths none)
        = [⟨black ⟨⟨0, 0⟩, ⟨0, 1⟩⟩, black ⟨⟨4, 0⟩, ⟨0, 1⟩⟩, black ⟨⟨0, 4⟩, ⟨0, 1⟩⟩⟩,
          ⟨black ⟨⟨9, 9⟩, ⟨0, 1⟩⟩, red ⟨⟨4, 4⟩, ⟨0, 1⟩⟩, red ⟨⟨8, 4⟩, ⟨0, 1⟩⟩⟩]
      ∧ (paths.flatMap fun path => Triangle.ofRecords (flatten [path] none))
        = [⟨black ⟨⟨0, 0⟩, ⟨0, 1⟩⟩, black ⟨⟨4, 0⟩, ⟨0, 1⟩⟩, black ⟨⟨0, 4⟩, ⟨0, 1⟩⟩⟩,
          ⟨red ⟨⟨4, 4⟩, ⟨0, 1⟩⟩, red ⟨⟨8, 4⟩, ⟨0, 1⟩⟩, red ⟨⟨4, 8⟩, ⟨0, 1⟩⟩⟩]
      ∧ Triangle.ofRecords (flatten paths none)
        ≠ paths.flatMap fun path => Triangle.ofRecords (flatten [path] none) := by
  intro paths black red
  refine ⟨rfl, rfl, fun h => ?_⟩
  have hfirst : (9 : ℝ) = 4 :=
    congrArg (fun triangles : List (Triangle ℝ) => (triangles[1]?.map (·.a.position.x)).getD 0) h
  norm_num at hfirst

end Path

end Raster
