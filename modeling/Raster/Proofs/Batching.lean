import Mathlib.Data.List.TakeWhile
import Mathlib.Data.Set.List
import Raster.Proofs.Renderer

/-!
# Batches draw what their members draw

Submitting primitives in batches gives the frame that submitting them one
by one gives (`Renderer.draw_batches`), with one exception that batches
make on purpose: of the underlines in a run the straight ones come first.
`Primitive.straightFirst` is the order that results.

The items of a run are compared with those of its members, kind by kind
(`Primitive.runItems_eq`). Three things have to fit: no limit may cut the
run, sprites of one run must all have their texture or all miss it, and no
triangle may take vertices from two paths.
-/

namespace Raster

variable {α : Type}

/-! ## Passes under the limits -/

theorem Plan.items_ofPass_of_le {β : Type} {options : Options α} (pass : Pass) (item : β → Item α)
    {instances : List β} (h : instances.length ≤ options.maxInstances) :
    (Plan.ofPass options pass item instances).items = instances.map item := by
  unfold Plan.ofPass
  dsimp only
  rw [if_neg (Nat.not_lt.mpr h)]

theorem Plan.items_ofSprites_of_le {β : Type} {options : Options α} (atlas : Option (Atlas α))
    (pass : Pass) (texture : TextureRef α) (item : β → Item α) {sprites : List β}
    (h : sprites.length ≤ options.maxInstances) :
    (Plan.ofSprites options atlas pass texture item sprites).items
      = if (atlas.map (·.contains texture)).getD false then sprites.map item else [] := by
  unfold Plan.ofSprites
  split
  · exact items_ofPass_of_le pass item h
  · rfl

theorem Path.length_flatMap_records (paths : List (Path α)) :
    (paths.flatMap records).length = vertexCount paths := by
  simp [vertexCount, records, List.length_flatMap]

theorem Plan.items_ofPaths_of_le {options : Options α} {paths : List (Path α)}
    (h : Path.vertexCount paths ≤ options.maxPathVertices) :
    (Plan.ofPaths options paths).items
      = (Triangle.ofRecords (paths.flatMap Path.records)).map .triangle := by
  have hlength : (paths.flatMap Path.records).length ≤ options.maxPathVertices := by
    rwa [Path.length_flatMap_records]
  unfold Plan.ofPaths Path.flatten
  dsimp only
  rw [List.take_of_length_le hlength]

/-! ## Triangles and textures -/

/-- A list of records that ends with a whole triangle shares none with what follows. -/
theorem Triangle.ofRecords_append {xs : List (VertexRecord α)} (ys : List (VertexRecord α))
    (h : 3 ∣ xs.length) : ofRecords (xs ++ ys) = ofRecords xs ++ ofRecords ys := by
  induction xs using ofRecords.induct with
  | case1 a b c rest ih =>
    have hrest : 3 ∣ rest.length := by
      simp only [List.length_cons] at h
      omega
    simp only [List.cons_append, ofRecords, ih hrest]
  | case2 xs hshort =>
    match xs with
    | [] => simp [ofRecords]
    | [_] => simp at h
    | [_, _] => simp at h
    | a :: b :: c :: rest => exact absurd rfl (hshort a b c rest)

theorem Triangle.ofRecords_flatMap {paths : List (Path α)}
    (h : ∀ path ∈ paths, 3 ∣ path.vertices.length) :
    ofRecords (paths.flatMap Path.records) = paths.flatMap fun path => ofRecords path.records := by
  induction paths with
  | nil => rfl
  | cons path rest ih =>
    have hpath : 3 ∣ path.records.length := by
      simpa [Path.records] using h path (List.mem_cons_self ..)
    rw [List.flatMap_cons, ofRecords_append _ hpath,
      ih fun p hp => h p (List.mem_cons_of_mem _ hp), List.flatMap_cons]

/-- References that agree are both held or both missing. -/
theorem Atlas.contains_eq_of_agrees [BEq α] (atlas : Atlas α) {ref ref' : TextureRef α}
    (h : ref.agrees ref' = true) : atlas.contains ref = atlas.contains ref' := by
  cases ref with
  | numbered id =>
    cases ref' with
    | numbered id' =>
      obtain rfl : id = id' := by simpa [TextureRef.agrees] using h
      rfl
    | stray kind number => simp [TextureRef.agrees] at h
  | stray kind number =>
    cases ref' with
    | numbered id => simp [TextureRef.agrees] at h
    | stray kind' number' => rfl

namespace Primitive

/-! ## One by one -/

/-- The batch of one primitive. -/
def alone : Primitive α → Batch α
  | quad q => .quads [q]
  | shadow s => .shadows [s]
  | monochromeSprite s => .monochromeSprites s.tile.texture [s]
  | polychromeSprite s => .polychromeSprites s.tile.texture [s]
  | path p => .paths [p]
  | underline u => .underlines [u]

def isUnderline : Primitive α → Bool
  | underline _ => true
  | _ => false

def isWavy : Primitive α → Bool
  | underline u => u.wavy
  | _ => false

/-- The order in which batches draw: of the underlines in an unbroken run the straight ones come
before the wavy ones, each in their order, and everything else keeps its place. -/
def straightFirst : List (Primitive α) → List (Primitive α)
  | [] => []
  | first :: rest =>
    if first.isUnderline then
      let run := first :: rest.takeWhile isUnderline
      run.filter (!·.isWavy) ++ run.filter (·.isWavy) ++ straightFirst (rest.dropWhile isUnderline)
    else first :: straightFirst rest
termination_by primitives => primitives.length
decreasing_by
  · exact Nat.lt_succ_of_le (List.dropWhile_sublist _).length_le
  · exact Nat.lt_succ_self _

/-- Whether the limits let the whole of a run pass. -/
def FitsLimits (options : Options α) (run : List (Primitive α)) : Prop :=
  match run with
  | path _ :: _ => Path.vertexCount (run.filterMap path?) ≤ options.maxPathVertices
  | _ => run.length ≤ options.maxInstances

theorem straightFirst_append {ps : List (Primitive α)} (qs : List (Primitive α))
    (h : ∀ p ∈ ps, p.isUnderline = false) : straightFirst (ps ++ qs) = ps ++ straightFirst qs := by
  induction ps with
  | nil => rfl
  | cons first rest ih =>
    have hfirst := h first (List.mem_cons_self ..)
    rw [List.cons_append, straightFirst, hfirst, if_neg Bool.false_ne_true,
      ih fun p hp => h p (List.mem_cons_of_mem _ hp), List.cons_append]

theorem straightFirst_eq_self {ps : List (Primitive α)} (h : ∀ p ∈ ps, p.isUnderline = false) :
    straightFirst ps = ps := by
  have happend := straightFirst_append [] h
  rwa [straightFirst, List.append_nil] at happend

theorem straightFirst_underlines (us : List (Underline α)) :
    straightFirst (us.map underline)
      = (us.filter (!·.wavy)).map underline ++ (us.filter (·.wavy)).map underline := by
  cases us with
  | nil => simp [straightFirst]
  | cons u rest =>
    have hall : ∀ p ∈ rest.map underline, p.isUnderline = true := by
      intro p hp
      obtain ⟨u, _, rfl⟩ := List.mem_map.mp hp
      rfl
    rw [List.map_cons, straightFirst, if_pos (by rfl), List.takeWhile_eq_self_iff.mpr hall,
      List.dropWhile_eq_nil_iff.mpr hall, straightFirst, List.append_nil, ← List.map_cons]
    simp only [List.filter_map]
    rfl

/-- The order in a list is the order in its first run, followed by that in the rest. -/
theorem straightFirst_cons [BEq α] (first : Primitive α) (rest : List (Primitive α)) :
    straightFirst (first :: rest)
      = straightFirst (first :: rest.takeWhile first.joins)
          ++ straightFirst (rest.dropWhile first.joins) := by
  by_cases hfirst : first.isUnderline = true
  · have hjoins : first.joins = isUnderline := by
      cases first with
      | underline u =>
        funext p
        cases p <;> rfl
      | _ => cases hfirst
    have hall : ∀ p ∈ rest.takeWhile isUnderline, p.isUnderline = true := fun p hp =>
      List.mem_takeWhile_imp hp
    rw [hjoins, straightFirst, if_pos hfirst, straightFirst, if_pos hfirst,
      List.takeWhile_eq_self_iff.mpr hall, List.dropWhile_eq_nil_iff.mpr hall, straightFirst,
      List.append_nil]
  · have hrun : ∀ p ∈ first :: rest.takeWhile first.joins, p.isUnderline = false := by
      intro p hp
      rcases List.mem_cons.mp hp with rfl | hp
      · simpa using hfirst
      · have hjoins := List.mem_takeWhile_imp hp
        cases first <;> cases p <;> simp_all [joins, isUnderline]
    rw [straightFirst_eq_self hrun, ← straightFirst_append _ hrun, List.cons_append,
      List.takeWhile_append_dropWhile]

/-! ## The items of a run -/

/-- What a run is drawn as. -/
def runItems (options : Options α) (atlas : Option (Atlas α)) (run : List (Primitive α)) :
    List (Item α) :=
  (batchOfRun run).toList.flatMap fun batch => (batch.plan options atlas).items

/-- What a primitive is drawn as by itself. -/
def items (options : Options α) (atlas : Option (Atlas α)) (p : Primitive α) : List (Item α) :=
  (p.alone.plan options atlas).items

theorem filterMap_map_of_inverse {β : Type} (make : β → Primitive α)
    (get? : Primitive α → Option β) (h : ∀ b, get? (make b) = some b) (bs : List β) :
    (bs.map make).filterMap get? = bs := by
  rw [List.filterMap_map, show get? ∘ make = some from funext h, List.filterMap_some]

theorem exists_map_eq {β : Type} (make : β → Primitive α) {ps : List (Primitive α)}
    (h : ∀ p ∈ ps, ∃ b, make b = p) : ∃ bs : List β, ps = bs.map make := by
  have hrange : ps ∈ Set.range (List.map make) := by
    rw [Set.range_list_map]
    exact h
  obtain ⟨bs, hbs⟩ := hrange
  exact ⟨bs, hbs.symm⟩

/-- Instances of a kind under the limit are drawn in their order, as each of them is by itself. -/
theorem map_eq_flatMap_items {β : Type} {options : Options α} {atlas : Option (Atlas α)}
    {make : β → Primitive α} {item : β → Item α} {bs : List β}
    (hlimit : bs.length ≤ options.maxInstances)
    (hitems : 1 ≤ options.maxInstances → ∀ b ∈ bs, items options atlas (make b) = [item b]) :
    bs.map item = (bs.map make).flatMap (items options atlas) := by
  rw [List.flatMap_map, List.map_eq_flatMap]
  refine List.flatMap_congr fun b hb => (hitems ?_ b hb).symm
  have hpos := List.length_pos_of_mem hb
  omega

theorem runItems_of_batch {options : Options α} {atlas : Option (Atlas α)}
    {run : List (Primitive α)} {batch : Batch α} (h : batchOfRun run = some batch) :
    runItems options atlas run = (batch.plan options atlas).items := by
  rw [runItems, h, Option.toList_some, List.flatMap_singleton]

theorem isUnderline_of_mem_map {β : Type} {make : β → Primitive α}
    (h : ∀ b, (make b).isUnderline = false) {bs : List β} :
    ∀ p ∈ bs.map make, p.isUnderline = false := by
  intro p hp
  obtain ⟨b, _, rfl⟩ := List.mem_map.mp hp
  exact h b

/-- A run of one kind other than underlines, all of which its batch draws in order. -/
theorem runItems_map {β : Type} {options : Options α} {atlas : Option (Atlas α)}
    {make : β → Primitive α} (item : β → Item α) {batch : Batch α} {bs : List β}
    (hbatch : batchOfRun (bs.map make) = some batch)
    (hplan : (batch.plan options atlas).items = bs.map item)
    (hunderline : ∀ b, (make b).isUnderline = false) (hlimit : bs.length ≤ options.maxInstances)
    (hitems : 1 ≤ options.maxInstances → ∀ b ∈ bs, items options atlas (make b) = [item b]) :
    runItems options atlas (bs.map make)
      = (straightFirst (bs.map make)).flatMap (items options atlas) := by
  rw [runItems_of_batch hbatch, hplan, straightFirst_eq_self (isUnderline_of_mem_map hunderline),
    map_eq_flatMap_items hlimit hitems]

/-- A run of sprites whose batch is skipped, as each of them is by itself. -/
theorem runItems_map_of_missing {β : Type} {options : Options α} {atlas : Option (Atlas α)}
    {make : β → Primitive α} {batch : Batch α} {bs : List β}
    (hbatch : batchOfRun (bs.map make) = some batch)
    (hplan : (batch.plan options atlas).items = [])
    (hunderline : ∀ b, (make b).isUnderline = false)
    (hitems : ∀ b ∈ bs, items options atlas (make b) = []) :
    runItems options atlas (bs.map make)
      = (straightFirst (bs.map make)).flatMap (items options atlas) := by
  rw [runItems_of_batch hbatch, hplan, straightFirst_eq_self (isUnderline_of_mem_map hunderline),
    List.flatMap_map]
  exact (List.flatMap_eq_nil_iff.mpr hitems).symm

/-- Sprites in a run have their texture all or none. -/
theorem runItems_sprites {β : Type} {options : Options α} {atlas : Option (Atlas α)} {pass : Pass}
    {make : β → Primitive α} {item : β → Item α} {texture : β → TextureRef α} {batch : Batch α}
    [BEq α] {first : β} {rest : List β}
    (hbatch : batchOfRun ((first :: rest).map make) = some batch)
    (hplan : batch.plan options atlas
      = Plan.ofSprites options atlas pass (texture first) item (first :: rest))
    (halone : ∀ b, (make b).alone.plan options atlas
      = Plan.ofSprites options atlas pass (texture b) item [b])
    (hunderline : ∀ b, (make b).isUnderline = false)
    (hagree : ∀ b ∈ rest, (texture first).agrees (texture b) = true)
    (hlimit : (first :: rest).length ≤ options.maxInstances) :
    runItems options atlas ((first :: rest).map make)
      = (straightFirst ((first :: rest).map make)).flatMap (items options atlas) := by
  have hsame : ∀ b ∈ first :: rest,
      atlas.map (·.contains (texture b)) = atlas.map (·.contains (texture first)) := by
    intro b hb
    cases atlas with
    | none => rfl
    | some atlas =>
      rcases List.mem_cons.mp hb with rfl | hb
      · rfl
      · exact congrArg some (atlas.contains_eq_of_agrees (hagree b hb)).symm
  have hone (b : β) : [b].length ≤ options.maxInstances := by
    simp only [List.length_cons, List.length_nil] at hlimit ⊢
    omega
  by_cases hheld : (atlas.map (·.contains (texture first))).getD false = true
  · refine runItems_map item hbatch ?_ hunderline hlimit fun _ b hb => ?_
    · rw [hplan, Plan.items_ofSprites_of_le _ _ _ _ hlimit, if_pos hheld]
    · rw [items, halone, Plan.items_ofSprites_of_le _ _ _ _ (hone b), hsame b hb,
        if_pos hheld, List.map_singleton]
  · refine runItems_map_of_missing hbatch ?_ hunderline fun b hb => ?_
    · rw [hplan, Plan.items_ofSprites_of_le _ _ _ _ hlimit, if_neg hheld]
    · rw [items, halone, Plan.items_ofSprites_of_le _ _ _ _ (hone b), hsame b hb,
        if_neg hheld]

/-- Each triangle of a run of paths belongs to one path. -/
theorem runItems_paths {options : Options α} {atlas : Option (Atlas α)} {first : Path α}
    {rest : List (Path α)} (hlimit : Path.vertexCount (first :: rest) ≤ options.maxPathVertices)
    (hthree : ∀ p ∈ first :: rest, 3 ∣ p.vertices.length) :
    runItems options atlas ((first :: rest).map path)
      = (straightFirst ((first :: rest).map path)).flatMap (items options atlas) := by
  have hbatch : batchOfRun ((first :: rest).map path) = some (.paths (first :: rest)) := by
    have hback := filterMap_map_of_inverse path path? (fun _ => rfl) (first :: rest)
    exact congrArg (some ∘ Batch.paths) hback
  have hone : ∀ p ∈ first :: rest,
      items options atlas (path p) = (Triangle.ofRecords p.records).map .triangle := by
    intro p hp
    have hcount : Path.vertexCount [p] ≤ options.maxPathVertices := by
      refine Nat.le_trans (List.Sublist.length_le ?_) hlimit
      rw [List.flatMap_singleton, List.flatMap_def]
      exact List.sublist_flatten_of_mem (List.mem_map_of_mem hp)
    have hitems := Plan.items_ofPaths_of_le hcount
    rwa [List.flatMap_singleton] at hitems
  have hplan : ((Batch.paths (first :: rest)).plan options atlas).items
      = (Triangle.ofRecords ((first :: rest).flatMap Path.records)).map .triangle :=
    Plan.items_ofPaths_of_le hlimit
  rw [runItems_of_batch hbatch, hplan, Triangle.ofRecords_flatMap hthree, List.map_flatMap,
    straightFirst_eq_self (isUnderline_of_mem_map fun _ => rfl), List.flatMap_map]
  exact List.flatMap_congr fun p hp => (hone p hp).symm

/-- A run of underlines is drawn in two passes. -/
theorem runItems_underlines {options : Options α} {atlas : Option (Atlas α)} {first : Underline α}
    {rest : List (Underline α)} (hlimit : (first :: rest).length ≤ options.maxInstances) :
    runItems options atlas ((first :: rest).map underline)
      = (straightFirst ((first :: rest).map underline)).flatMap (items options atlas) := by
  have hbatch :
      batchOfRun ((first :: rest).map underline) = some (.underlines (first :: rest)) := by
    have hback := filterMap_map_of_inverse underline underline? (fun _ => rfl) (first :: rest)
    exact congrArg (some ∘ Batch.underlines) hback
  have hpass (pass : Pass) (wanted : Underline α → Bool) :
      (Plan.ofPass options pass .underline ((first :: rest).filter wanted)).items
        = ((first :: rest).filter wanted).map .underline :=
    Plan.items_ofPass_of_le _ _ (Nat.le_trans (List.length_filter_le ..) hlimit)
  have hone (u : Underline α) : items options atlas (underline u) = [.underline u] := by
    have hempty : ([] : List (Underline α)).length ≤ options.maxInstances := Nat.zero_le _
    have hsingle : [u].length ≤ options.maxInstances := by
      simp only [List.length_cons, List.length_nil] at hlimit ⊢
      omega
    cases hwavy : u.wavy <;>
      simp [items, alone, Batch.plan, Plan.append, hwavy, Plan.items_ofPass_of_le _ _ hempty,
        Plan.items_ofPass_of_le _ _ hsingle]
  rw [runItems_of_batch hbatch, straightFirst_underlines]
  simp only [Batch.plan, Plan.append, hpass, List.flatMap_append, List.flatMap_map, hone,
    ← List.map_eq_flatMap]

variable [BEq α]

/-- A run is drawn as its members in the order `straightFirst`. -/
theorem runItems_eq {options : Options α} {atlas : Option (Atlas α)} {first : Primitive α}
    {rest : List (Primitive α)} (hjoins : ∀ p ∈ rest, first.joins p = true)
    (hlimit : FitsLimits options (first :: rest))
    (hthree : ∀ p, path p ∈ first :: rest → 3 ∣ p.vertices.length) :
    runItems options atlas (first :: rest)
      = (straightFirst (first :: rest)).flatMap (items options atlas) := by
  cases first with
  | quad q =>
    obtain ⟨qs, rfl⟩ := exists_map_eq quad fun p hp => by
      have := hjoins p hp
      cases p <;> simp_all [joins]
    have hlength : (q :: qs).length ≤ options.maxInstances := by simpa [FitsLimits] using hlimit
    have hbatch : batchOfRun ((q :: qs).map quad) = some (.quads (q :: qs)) :=
      congrArg (some ∘ Batch.quads) (filterMap_map_of_inverse quad quad? (fun _ => rfl) (q :: qs))
    exact runItems_map .quad hbatch
      (Plan.items_ofPass_of_le _ _ hlength) (fun _ => rfl) hlength
      fun hone _ _ => Plan.items_ofPass_of_le _ _ hone
  | shadow s =>
    obtain ⟨ss, rfl⟩ := exists_map_eq shadow fun p hp => by
      have := hjoins p hp
      cases p <;> simp_all [joins]
    have hlength : (s :: ss).length ≤ options.maxInstances := by simpa [FitsLimits] using hlimit
    have hbatch : batchOfRun ((s :: ss).map shadow) = some (.shadows (s :: ss)) :=
      congrArg (some ∘ Batch.shadows)
        (filterMap_map_of_inverse shadow shadow? (fun _ => rfl) (s :: ss))
    exact runItems_map .shadow hbatch
      (Plan.items_ofPass_of_le _ _ hlength) (fun _ => rfl) hlength
      fun hone _ _ => Plan.items_ofPass_of_le _ _ hone
  | monochromeSprite s =>
    obtain ⟨ss, rfl⟩ := exists_map_eq monochromeSprite fun p hp => by
      have := hjoins p hp
      cases p <;> simp_all [joins]
    have hlength : (s :: ss).length ≤ options.maxInstances := by simpa [FitsLimits] using hlimit
    have hbatch : batchOfRun ((s :: ss).map monochromeSprite)
        = some (.monochromeSprites s.tile.texture (s :: ss)) :=
      congrArg (some ∘ Batch.monochromeSprites s.tile.texture)
        (filterMap_map_of_inverse monochromeSprite monochromeSprite? (fun _ => rfl) (s :: ss))
    exact runItems_sprites hbatch rfl (fun _ => rfl) (fun _ => rfl)
      (fun t ht => hjoins _ (List.mem_map_of_mem ht)) hlength
  | polychromeSprite s =>
    obtain ⟨ss, rfl⟩ := exists_map_eq polychromeSprite fun p hp => by
      have := hjoins p hp
      cases p <;> simp_all [joins]
    have hlength : (s :: ss).length ≤ options.maxInstances := by simpa [FitsLimits] using hlimit
    have hbatch : batchOfRun ((s :: ss).map polychromeSprite)
        = some (.polychromeSprites s.tile.texture (s :: ss)) :=
      congrArg (some ∘ Batch.polychromeSprites s.tile.texture)
        (filterMap_map_of_inverse polychromeSprite polychromeSprite? (fun _ => rfl) (s :: ss))
    exact runItems_sprites hbatch rfl (fun _ => rfl) (fun _ => rfl)
      (fun t ht => hjoins _ (List.mem_map_of_mem ht)) hlength
  | path p =>
    obtain ⟨ps, rfl⟩ := exists_map_eq path fun p hp => by
      have := hjoins p hp
      cases p <;> simp_all [joins]
    have hback := filterMap_map_of_inverse path path? (fun _ => rfl) (p :: ps)
    have hcount : Path.vertexCount (p :: ps) ≤ options.maxPathVertices := by
      rw [← hback]
      exact hlimit
    exact runItems_paths hcount fun q hq => hthree q (List.mem_map_of_mem hq)
  | underline u =>
    obtain ⟨us, rfl⟩ := exists_map_eq underline fun p hp => by
      have := hjoins p hp
      cases p <;> simp_all [joins]
    exact runItems_underlines (by simpa [FitsLimits] using hlimit)

/-- The batches of a list come to the items of its primitives in the order `straightFirst`. -/
theorem items_batches {options : Options α} {atlas : Option (Atlas α)} {ps : List (Primitive α)}
    (hlimit : ∀ run ∈ runs ps, FitsLimits options run)
    (hthree : ∀ p, path p ∈ ps → 3 ∣ p.vertices.length) :
    Batch.items options atlas (batches ps)
      = Batch.items options atlas ((straightFirst ps).map alone) := by
  have hruns : Batch.items options atlas (batches ps)
      = (runs ps).flatMap (runItems options atlas) := by
    simp only [Batch.items, batches, List.filterMap_eq_flatMap_toList, List.flatMap_map,
      List.flatMap_assoc]
    rfl
  have halone (qs : List (Primitive α)) :
      Batch.items options atlas (qs.map alone) = qs.flatMap (items options atlas) := by
    simp only [Batch.items, List.flatMap_map]
    rfl
  rw [hruns, halone]
  clear hruns halone
  induction ps using runs.induct with
  | case1 => simp [runs, straightFirst]
  | case2 first rest ih =>
    rw [runs] at hlimit ⊢
    have hmem : ∀ p ∈ rest.dropWhile first.joins, p ∈ first :: rest := fun p hp =>
      List.mem_cons_of_mem _ ((List.dropWhile_sublist _).subset hp)
    have hrun : ∀ p ∈ first :: rest.takeWhile first.joins, p ∈ first :: rest := fun p hp =>
      ((List.takeWhile_sublist _).cons_cons first).subset hp
    rw [List.flatMap_cons, straightFirst_cons, List.flatMap_append,
      runItems_eq (fun p hp => List.mem_takeWhile_imp hp) (hlimit _ (List.mem_cons_self ..))
        fun p hp => hthree p (hrun _ hp),
      ih (fun run h => hlimit run (List.mem_cons_of_mem _ h)) fun p hp => hthree p (hmem _ hp)]

end Primitive

namespace Renderer

variable [Scalar α]

/-- Batching does not change the picture, but for underlines, the straight ones of which it draws
before the wavy ones of the same run. -/
theorem draw_batches [Memory] (r : Renderer α) (atlas : Option (Atlas α))
    (target : Option (Frame α)) {ps : List (Primitive α)}
    (hlimit : ∀ run ∈ Primitive.runs ps, Primitive.FitsLimits r.options run)
    (hthree : ∀ p, Primitive.path p ∈ ps → 3 ∣ p.vertices.length) :
    (r.draw atlas (Primitive.batches ps) target).map (·.frame)
      = (r.draw atlas ((Primitive.straightFirst ps).map Primitive.alone) target).map (·.frame) := by
  have hcanvas (frame : Frame α) : r.canvas atlas (Primitive.batches ps) frame
      = r.canvas atlas ((Primitive.straightFirst ps).map Primitive.alone) frame := by
    unfold canvas
    rw [Primitive.items_batches hlimit hthree]
  simp only [map_frame_draw, hcanvas]

/-- A wavy underline before a straight one, and two paths of one triangle each. -/
theorem draw_batches_mixed :
    letI : Memory := .unbounded
    ((Renderer.mk (α := Float) ⟨⟨2, 1⟩, true, 4, false, ⟨0, 0, 0, 1⟩, 2, 6, false⟩ #[7] false).draw
        none (Primitive.batches
          [.underline ⟨⟨0, .of 0 0 8 8, .of 0 0 2 1⟩, ⟨0, 0, 0, 0.5⟩, 1, true⟩,
            .underline ⟨⟨1, .of 0 0 8 8, .of 0 0 1 1⟩, ⟨0, 0, 0, 0.5⟩, 1, false⟩,
            .path ⟨⟨2, .of 0 0 8 8, .of 0 0 2 2⟩, .solid ⟨0, 0, 0, 1⟩,
              [⟨⟨0, 0⟩, ⟨0, 1⟩⟩, ⟨⟨2, 0⟩, ⟨0, 1⟩⟩, ⟨⟨0, 2⟩, ⟨0, 1⟩⟩]⟩,
            .path ⟨⟨3, .of 0 0 8 8, .of 0 0 2 2⟩, .solid ⟨0, 0, 0, 0.5⟩,
              [⟨⟨2, 0⟩, ⟨0, 1⟩⟩, ⟨⟨2, 2⟩, ⟨0, 1⟩⟩, ⟨⟨0, 2⟩, ⟨0, 1⟩⟩]⟩])
        (some (Frame.blank 2 1))).map (·.frame)
      = ((Renderer.mk (α := Float) ⟨⟨2, 1⟩, true, 4, false, ⟨0, 0, 0, 1⟩, 2, 6, false⟩ #[7]
          false).draw
        none
          [.underlines [⟨⟨1, .of 0 0 8 8, .of 0 0 1 1⟩, ⟨0, 0, 0, 0.5⟩, 1, false⟩],
            .underlines [⟨⟨0, .of 0 0 8 8, .of 0 0 2 1⟩, ⟨0, 0, 0, 0.5⟩, 1, true⟩],
            .paths [⟨⟨2, .of 0 0 8 8, .of 0 0 2 2⟩, .solid ⟨0, 0, 0, 1⟩,
              [⟨⟨0, 0⟩, ⟨0, 1⟩⟩, ⟨⟨2, 0⟩, ⟨0, 1⟩⟩, ⟨⟨0, 2⟩, ⟨0, 1⟩⟩]⟩],
            .paths [⟨⟨3, .of 0 0 8 8, .of 0 0 2 2⟩, .solid ⟨0, 0, 0, 0.5⟩,
              [⟨⟨2, 0⟩, ⟨0, 1⟩⟩, ⟨⟨2, 2⟩, ⟨0, 1⟩⟩, ⟨⟨0, 2⟩, ⟨0, 1⟩⟩]⟩]]
        (some (Frame.blank 2 1))).map (·.frame) := by
  let _ : Memory := .unbounded
  refine (draw_batches _ none _ ?_ ?_).trans ?_
  · simp [Primitive.runs, Primitive.joins, Primitive.FitsLimits, Path.vertexCount, Primitive.path?,
      List.takeWhile_cons, List.dropWhile_cons]
  · simp
  · simp [Primitive.straightFirst, Primitive.isUnderline, Primitive.isWavy, Primitive.alone,
      List.takeWhile_cons, List.dropWhile_cons]

end Renderer

end Raster
