import Mathlib.Data.List.DropRight
import Raster.Scalar.Real
import Raster.Proofs.AlphaModes

/-!
# Compositing along a run

A frame is cleared and blended onto, step after step (`Frame.run`). In
exact arithmetic every pixel has a history of its own: the colour that it
was last cleared to, and the contributions that were blended at it since
(`FrameStep.contributions`). The stored value is the premultiplication of
these contributions, each put on top of the ones before by the rule for
straight colours, which divides and treats a result without alpha apart
(`Frame.pixel_run_eq_foldl`).

The two rules meet in `overlay`, the rule for premultiplied colours. It
divides nothing and is associative, so a stretch of contributions may be
merged before it is blended.
-/

namespace Raster

namespace Rgba

/-! ## Premultiplied colours -/

/-- A premultiplied colour on top of another. -/
def overlay {α : Type} [Scalar α] (below above : Rgba α) : Rgba α :=
  let rest := 1 - above.a
  ⟨above.r + below.r * rest, above.g + below.g * rest, above.b + below.b * rest,
    above.a + below.a * rest⟩

theorem overlay_assoc (c d e : Rgba ℝ) : (c.overlay d).overlay e = c.overlay (d.overlay e) := by
  have hchannel (x y z : ℝ) :
      z + (y + x * (1 - d.a)) * (1 - e.a)
        = z + y * (1 - e.a) + x * (1 - (e.a + d.a * (1 - e.a))) := by ring
  rw [overlay, overlay, overlay, overlay, Rgba.mk.injEq]
  exact ⟨hchannel _ _ _, hchannel _ _ _, hchannel _ _ _, hchannel _ _ _⟩

instance : Std.Associative (overlay : Rgba ℝ → Rgba ℝ → Rgba ℝ) := ⟨overlay_assoc⟩

/-- Laying a contribution onto a stored pixel is overlaying it. The contribution that is skipped
has no alpha, and so changes nothing. -/
theorem onto_eq_overlay {c : Rgba ℝ} (hc : 0 ≤ c.a) (below : Rgba ℝ) :
    c.onto false below = below.overlay c.premultiply := by
  simp only [onto, Bool.false_eq_true, if_false, store_eq_self]
  split_ifs with hempty
  · have hzero : c.a = 0 := le_antisymm hempty hc
    show below = ⟨c.r * c.a + below.r * (1 - c.a), c.g * c.a + below.g * (1 - c.a),
      c.b * c.a + below.b * (1 - c.a), c.a + below.a * (1 - c.a)⟩
    simp only [hzero, mul_zero, sub_zero, mul_one, zero_add]
  · rfl

/-! ## Straight colours -/

section
variable {below above : Rgba ℝ} (hbelow : below.a ∈ Set.Icc (0 : ℝ) 1)
  (habove : above.a ∈ Set.Icc (0 : ℝ) 1)
include hbelow habove

/-- Putting one colour on top of another leaves alpha in the interval. -/
theorem alpha_overlay_mem : above.a + below.a * (1 - above.a) ∈ Set.Icc (0 : ℝ) 1 := by
  have hrest : 0 ≤ 1 - above.a := sub_nonneg.mpr habove.2
  constructor
  · exact add_nonneg habove.1 (mul_nonneg hbelow.1 hrest)
  · calc above.a + below.a * (1 - above.a) ≤ above.a + 1 * (1 - above.a) := by
          gcongr
          exact hbelow.2
      _ = 1 := by ring

/-- The rule for straight colours is the rule for premultiplied ones. Without alpha there is
nothing to divide by, and then both colours are without alpha. -/
theorem premultiply_coveredBy :
    (below.coveredBy above).premultiply = below.premultiply.overlay above.premultiply := by
  have hmem := alpha_overlay_mem hbelow habove
  have hweight : 0 ≤ below.a * (1 - above.a) :=
    mul_nonneg hbelow.1 (sub_nonneg.mpr habove.2)
  unfold coveredBy
  dsimp only
  split_ifs with hempty
  · have habove' : above.a = 0 :=
      le_antisymm ((le_add_of_nonneg_right hweight).trans hempty) habove.1
    have hbelow' : below.a = 0 := by
      have : above.a + below.a * (1 - above.a) ≤ 0 := hempty
      rw [habove', zero_add, sub_zero, mul_one] at this
      exact le_antisymm this hbelow.1
    simp only [premultiply, transparent, overlay, habove', hbelow', mul_zero, zero_mul, add_zero]
  · have hne : above.a + below.a * (1 - above.a) ≠ 0 := (not_le.mp hempty).ne'
    have hchannel (x y : ℝ) :
        (y * above.a + x * (below.a * (1 - above.a))) / (above.a + below.a * (1 - above.a))
          * (above.a + below.a * (1 - above.a)) = y * above.a + x * below.a * (1 - above.a) := by
      rw [div_mul_cancel₀ _ hne]
      ring
    rw [premultiply, premultiply, premultiply, overlay, Rgba.mk.injEq]
    exact ⟨hchannel _ _, hchannel _ _, hchannel _ _, rfl⟩

theorem alpha_coveredBy : (below.coveredBy above).a = above.a + below.a * (1 - above.a) :=
  congrArg Rgba.a (premultiply_coveredBy hbelow habove)

theorem alpha_coveredBy_mem : (below.coveredBy above).a ∈ Set.Icc (0 : ℝ) 1 := by
  rw [alpha_coveredBy hbelow habove]
  exact alpha_overlay_mem hbelow habove

end

/-- The rule for straight colours is associative, up to the colour of what has no alpha. -/
theorem premultiply_coveredBy_assoc {c d e : Rgba ℝ} (hc : c.a ∈ Set.Icc (0 : ℝ) 1)
    (hd : d.a ∈ Set.Icc (0 : ℝ) 1) (he : e.a ∈ Set.Icc (0 : ℝ) 1) :
    ((c.coveredBy d).coveredBy e).premultiply = (c.coveredBy (d.coveredBy e)).premultiply := by
  rw [premultiply_coveredBy (alpha_coveredBy_mem hc hd) he, premultiply_coveredBy hc hd,
    premultiply_coveredBy hc (alpha_coveredBy_mem hd he), premultiply_coveredBy hd he,
    overlay_assoc]

section
variable {colors : List (Rgba ℝ)} (hcolors : ∀ c ∈ colors, c.a ∈ Set.Icc (0 : ℝ) 1)
  {base : Rgba ℝ} (hbase : base.a ∈ Set.Icc (0 : ℝ) 1)
include hcolors hbase

theorem alpha_foldl_coveredBy_mem : (colors.foldl coveredBy base).a ∈ Set.Icc (0 : ℝ) 1 := by
  induction colors generalizing base with
  | nil => exact hbase
  | cons c rest ih =>
    obtain ⟨hc, hrest⟩ := List.forall_mem_cons.mp hcolors
    exact ih hrest (alpha_coveredBy_mem hbase hc)

theorem premultiply_foldl_coveredBy :
    (colors.foldl coveredBy base).premultiply
      = (colors.map premultiply).foldl overlay base.premultiply := by
  induction colors generalizing base with
  | nil => rfl
  | cons c rest ih =>
    obtain ⟨hc, hrest⟩ := List.forall_mem_cons.mp hcolors
    rw [List.foldl_cons, ih hrest (alpha_coveredBy_mem hbase hc), premultiply_coveredBy hbase hc,
      List.map_cons, List.foldl_cons]

end

/-- A stretch of contributions may be merged first. -/
theorem premultiply_foldl_merge {before group after : List (Rgba ℝ)} {first base : Rgba ℝ}
    (hcolors : ∀ c ∈ before ++ (first :: group) ++ after, c.a ∈ Set.Icc (0 : ℝ) 1)
    (hbase : base.a ∈ Set.Icc (0 : ℝ) 1) :
    ((before ++ (first :: group) ++ after).foldl coveredBy base).premultiply
      = ((before ++ [group.foldl coveredBy first] ++ after).foldl coveredBy base).premultiply := by
  have hgroup : ∀ c ∈ group, c.a ∈ Set.Icc (0 : ℝ) 1 := fun c hc => hcolors c (by simp [hc])
  have hfirst : first.a ∈ Set.Icc (0 : ℝ) 1 := hcolors first (by simp)
  have hmerged : ∀ c ∈ before ++ [group.foldl coveredBy first] ++ after,
      c.a ∈ Set.Icc (0 : ℝ) 1 := by
    intro c hc
    simp only [List.mem_append, List.mem_singleton] at hc
    rcases hc with (hc | rfl) | hc
    · exact hcolors c (by simp [hc])
    · exact alpha_foldl_coveredBy_mem hgroup hfirst
    · exact hcolors c (by simp [hc])
  rw [premultiply_foldl_coveredBy hcolors hbase, premultiply_foldl_coveredBy hmerged hbase]
  simp only [List.map_append, List.map_cons, List.map_nil, List.foldl_append, List.foldl_cons,
    List.foldl_nil, premultiply_foldl_coveredBy hgroup hfirst]
  rw [List.foldl_assoc]

end Rgba

/-! ## Whole places of a buffer -/

namespace Buffer

theorem places_intCast (offset : Int) :
    places (offset : ℝ) = ⟨(offset : Int), ((offset + 1 : Int) : ℝ), ((offset + 2 : Int) : ℝ),
      ((offset + 3 : Int) : ℝ)⟩ := by
  push_cast
  rfl

theorem getAt?_intCast (buffer : Array ℝ) (place : Int) :
    getAt? buffer (place : ℝ) = get? buffer place := by
  rw [getAt?, Scalar.toInt?_intCast, Option.bind_some]

theorem putAt_intCast (buffer : Array ℝ) (place : Int) (v : ℝ) :
    putAt buffer (place : ℝ) v = put buffer place v := by
  rw [putAt, Scalar.toInt?_intCast]

theorem compositeAt_intCast (buffer : Array ℝ) (offset : Int) (c : Rgba ℝ)
    (premultiplied : Bool) :
    compositeAt buffer (offset : ℝ) c premultiplied = composite buffer offset c premultiplied := by
  simp only [compositeAt, pixelAt?, places_intCast, Rgba.map, getAt?_intCast, putAt_intCast]
  rfl

theorem get?_eq_some {buffer : Array ℝ} {place : Int} (hlow : 0 ≤ place)
    (hhigh : place < buffer.size) : get? buffer place = some (get buffer place) := by
  have hin : place.toNat < buffer.size := by omega
  simp [get, get?, hlow, hin]

theorem pixelAt?_intCast {buffer : Array ℝ} {offset : Int} (hlow : 0 ≤ offset)
    (hhigh : offset + 3 < buffer.size) :
    pixelAt? buffer (offset : ℝ) = (pixel buffer offset).map some := by
  simp only [pixelAt?, places_intCast, Rgba.map, getAt?_intCast, pixel]
  rw [get?_eq_some hlow (by omega), get?_eq_some (by omega) (by omega),
    get?_eq_some (by omega) (by omega), get?_eq_some (by omega) hhigh]

end Buffer

/-! ## Steps on a frame -/

/-- What is done to a frame. A contribution is named by its straight colour; it is blended as this
colour or as its premultiplication, with the flag that goes with it. -/
inductive FrameStep (α : Type) where
  | clear (c : Rgba α)
  | blend (x y : Int) (c : Rgba α) (premultiplied : Bool)

namespace FrameStep

/-- The straight colour that a step brings. -/
def color {α : Type} : FrameStep α → Rgba α
  | clear c => c
  | blend _ _ c _ => c

def isClear {α : Type} : FrameStep α → Bool
  | clear _ => true
  | blend .. => false

/-- The colour that a step adds to a pixel. -/
def colorAt? {α : Type} (column row : Nat) : FrameStep α → Option (Rgba α)
  | clear _ => none
  | blend x y c _ => if x = column ∧ y = row then some c else none

/-- The colour of the last clear. -/
def lastClear? {α : Type} (steps : List (FrameStep α)) : Option (Rgba α) :=
  (steps.reverse.find? isClear).map color

/-- What was blended at a pixel since the last clear. -/
def contributions {α : Type} (column row : Nat) (steps : List (FrameStep α)) : List (Rgba α) :=
  (steps.rtakeWhile (!·.isClear)).filterMap (colorAt? column row)

section
variable {α : Type} (steps : List (FrameStep α)) (column row : Nat)

@[simp] theorem lastClear?_concat_clear (c : Rgba α) :
    lastClear? (steps ++ [clear c]) = some c := by
  simp [lastClear?, isClear, color]

@[simp] theorem lastClear?_concat_blend (x y : Int) (c : Rgba α) (premultiplied : Bool) :
    lastClear? (steps ++ [blend x y c premultiplied]) = lastClear? steps := by
  simp [lastClear?, isClear]

@[simp] theorem contributions_concat_clear (c : Rgba α) :
    contributions column row (steps ++ [clear c]) = [] := by
  rw [contributions, List.rtakeWhile_concat_neg _ _ _ (by simp [isClear]), List.filterMap_nil]

@[simp] theorem contributions_concat_blend (x y : Int) (c : Rgba α) (premultiplied : Bool) :
    contributions column row (steps ++ [blend x y c premultiplied])
      = contributions column row steps ++ if x = column ∧ y = row then [c] else [] := by
  rw [contributions, List.rtakeWhile_concat_pos _ _ _ (by simp [isClear]), List.filterMap_append]
  congr 1
  by_cases hat : x = column ∧ y = row <;> simp [colorAt?, hat]

/-- Every contribution comes from a step. -/
theorem exists_of_mem_contributions {steps : List (FrameStep α)} {column row : Nat} {c : Rgba α}
    (hc : c ∈ contributions column row steps) : ∃ step ∈ steps, step.color = c := by
  obtain ⟨step, hstep, hcolor⟩ := List.mem_filterMap.mp hc
  refine ⟨step, (List.rtakeWhile_suffix ..).subset hstep, ?_⟩
  cases step with
  | clear _ => cases hcolor
  | blend x y d premultiplied =>
    rw [colorAt?] at hcolor
    split at hcolor
    · exact Option.some.inj hcolor
    · cases hcolor

end

end FrameStep

namespace Frame

section
variable {α : Type} [Scalar α]

def step (f : Frame α) : FrameStep α → Frame α
  | .clear c => f.clear c
  | .blend x y c premultiplied =>
    f.blend (Scalar.ofInt x) (Scalar.ofInt y) (if premultiplied then c.premultiply else c)
      premultiplied

def run (f : Frame α) (steps : List (FrameStep α)) : Frame α := steps.foldl step f

theorem width_blend (f : Frame α) (x y : α) (c : Rgba α) (premultiplied : Bool) :
    (f.blend x y c premultiplied).width = f.width := by
  unfold blend
  split <;> rfl

theorem height_blend (f : Frame α) (x y : α) (c : Rgba α) (premultiplied : Bool) :
    (f.blend x y c premultiplied).height = f.height := by
  unfold blend
  split <;> rfl

@[simp] theorem width_step (f : Frame α) (s : FrameStep α) : (f.step s).width = f.width := by
  cases s with
  | clear c => rfl
  | blend x y c premultiplied => exact width_blend ..

@[simp] theorem height_step (f : Frame α) (s : FrameStep α) : (f.step s).height = f.height := by
  cases s with
  | clear c => rfl
  | blend x y c premultiplied => exact height_blend ..

@[simp] theorem run_concat (f : Frame α) (steps : List (FrameStep α)) (s : FrameStep α) :
    f.run (steps ++ [s]) = (f.run steps).step s := by
  rw [run, List.foldl_append]
  rfl

@[simp] theorem width_run (f : Frame α) (steps : List (FrameStep α)) :
    (f.run steps).width = f.width := by
  induction steps using List.reverseRecOn with
  | nil => rfl
  | append_singleton steps s ih => rw [run_concat, width_step, ih]

@[simp] theorem height_run (f : Frame α) (steps : List (FrameStep α)) :
    (f.run steps).height = f.height := by
  induction steps using List.reverseRecOn with
  | nil => rfl
  | append_singleton steps s ih => rw [run_concat, height_step, ih]

end

/-! ## Whole positions -/

theorem excludes_ofInt (f : Frame ℝ) (x y : Int) :
    f.excludes (Scalar.ofInt x) (Scalar.ofInt y) = true
      ↔ x < 0 ∨ y < 0 ∨ f.width ≤ x ∨ f.height ≤ y := by
  simp only [excludes, Scalar.ofInt_eq_intCast, Scalar.ofNat_eq_natCast, Bool.or_eq_true,
    decide_eq_true_eq, or_assoc]
  refine or_congr Int.cast_lt_zero (or_congr Int.cast_lt_zero (or_congr ?_ ?_))
  · exact_mod_cast Int.cast_le (R := ℝ)
  · exact_mod_cast Int.cast_le (R := ℝ)

theorem offsetAt_ofInt (f : Frame ℝ) (x y : Int) :
    f.offsetAt (Scalar.ofInt x) (Scalar.ofInt y) = (((y * f.width + x) * 4 : Int) : ℝ) := by
  rw [offsetAt, Scalar.ofInt_eq_intCast, Scalar.ofInt_eq_intCast, Scalar.ofNat_eq_natCast]
  push_cast
  rfl

/-- A contribution blended at whole positions is laid onto the pixel there, if there is one. -/
theorem blend_ofInt (f : Frame ℝ) (x y : Int) (c : Rgba ℝ) (premultiplied : Bool) :
    f.blend (Scalar.ofInt x) (Scalar.ofInt y) c premultiplied
      = if x < 0 ∨ y < 0 ∨ f.width ≤ x ∨ f.height ≤ y then f
        else f.compositeAt ((y * f.width + x) * 4) c premultiplied := by
  unfold blend
  simp only [excludes_ofInt, offsetAt_ofInt, Buffer.compositeAt_intCast]
  rfl

/-- A blended contribution reaches the pixel at its position and no other. -/
theorem pixel_blend (f : Frame ℝ) (x y : Int) (c : Rgba ℝ) (premultiplied : Bool)
    {column row : Nat} (hx : column < f.width) (hy : row < f.height) :
    (f.blend (Scalar.ofInt x) (Scalar.ofInt y) c premultiplied).pixel column row
      = if x = column ∧ y = row then c.onto premultiplied (f.pixel column row)
        else f.pixel column row := by
  rw [blend_ofInt]
  split_ifs with hout hat hat
  · omega
  · rfl
  · obtain ⟨rfl, rfl⟩ := hat
    exact pixel_compositeAt_self f hx hy c premultiplied
  · obtain ⟨column', rfl⟩ := Int.eq_ofNat_of_zero_le (show 0 ≤ x by omega)
    obtain ⟨row', rfl⟩ := Int.eq_ofNat_of_zero_le (show 0 ≤ y by omega)
    refine pixel_compositeAt_of_ne f (by omega) hx (fun heq => hat ?_) c premultiplied
    rw [Prod.mk.injEq] at heq
    exact ⟨congrArg Nat.cast heq.1, congrArg Nat.cast heq.2⟩

/-- Reading at a whole position inside gives the stored pixel. -/
theorem pixel?_ofNat (f : Frame ℝ) {column row : Nat} (hx : column < f.width)
    (hy : row < f.height) :
    f.pixel? (Scalar.ofNat column) (Scalar.ofNat row) = .ok ((f.pixel column row).map some) := by
  have hin : ¬ f.excludes (Scalar.ofInt column) (Scalar.ofInt row) = true := by
    rw [excludes_ofInt]
    omega
  have hroom := f.offset_lt hx hy
  have hread : Buffer.pixelAt? f.data ((f.offset column row : Int) : ℝ)
      = (f.pixel column row).map some := Buffer.pixelAt?_intCast (by omega) (by omega)
  show (if f.excludes (Scalar.ofInt column) (Scalar.ofInt row) = true then _ else
    Except.ok (Buffer.pixelAt? f.data (f.offsetAt (Scalar.ofInt column) (Scalar.ofInt row)))) = _
  rw [if_neg hin, offsetAt_ofInt]
  exact congrArg Except.ok hread

/-! ## Whole runs -/

/-- Where the history of a pixel starts: the colour that it was last cleared to or, if it never
was, a colour whose premultiplication the frame holds at first. -/
def StartsFrom (f : Frame ℝ) (column row : Nat) (steps : List (FrameStep ℝ)) (base : Rgba ℝ) :
    Prop :=
  FrameStep.lastClear? steps = some base
    ∨ FrameStep.lastClear? steps = none ∧ f.pixel column row = base.premultiply
      ∧ base.a ∈ Set.Icc (0 : ℝ) 1

section
variable {f : Frame ℝ} {column row : Nat} {steps : List (FrameStep ℝ)} {base : Rgba ℝ}
  (hsteps : ∀ step ∈ steps, step.color.a ∈ Set.Icc (0 : ℝ) 1)
  (hbase : f.StartsFrom column row steps base)
include hsteps

theorem contributions_mem : ∀ c ∈ FrameStep.contributions column row steps,
    c.a ∈ Set.Icc (0 : ℝ) 1 := by
  intro c hc
  obtain ⟨step, hstep, rfl⟩ := FrameStep.exists_of_mem_contributions hc
  exact hsteps step hstep

include hbase

theorem StartsFrom.alpha_mem : base.a ∈ Set.Icc (0 : ℝ) 1 := by
  rcases hbase with hclear | ⟨-, -, halpha⟩
  · obtain ⟨step, hstep, rfl⟩ := Option.map_eq_some_iff.mp hclear
    exact hsteps step (List.mem_reverse.mp (List.mem_of_find?_eq_some hstep))
  · exact halpha

/-- The stored value of a pixel, from its own history. -/
theorem pixel_run (hx : column < f.width) (hy : row < f.height) :
    (f.run steps).pixel column row
      = ((FrameStep.contributions column row steps).foldl Rgba.coveredBy base).premultiply := by
  induction steps using List.reverseRecOn with
  | nil =>
    rcases hbase with hclear | ⟨-, hpixel, -⟩
    · cases hclear
    · exact hpixel
  | append_singleton steps s ih =>
    have hx' : column < (f.run steps).width := by rwa [width_run]
    have hy' : row < (f.run steps).height := by rwa [height_run]
    have hbefore : ∀ step ∈ steps, step.color.a ∈ Set.Icc (0 : ℝ) 1 := fun step hstep =>
      hsteps step (List.mem_append_left _ hstep)
    rw [run_concat]
    cases s with
    | clear c =>
      -- What the frame held before does not matter any more.
      obtain rfl : c = base := by simpa [StartsFrom] using hbase
      rw [FrameStep.contributions_concat_clear]
      exact pixel_clear _ c hx' hy'
    | blend x y c premultiplied =>
      have hbase' : f.StartsFrom column row steps base := by
        simpa only [StartsFrom, FrameStep.lastClear?_concat_blend] using hbase
      have hc : c.a ∈ Set.Icc (0 : ℝ) 1 :=
        hsteps (.blend x y c premultiplied) (List.mem_append_right _ (List.mem_singleton_self _))
      have hcolors : ∀ d ∈ FrameStep.contributions column row steps, d.a ∈ Set.Icc (0 : ℝ) 1 :=
        contributions_mem hbefore
      have hhistory := Rgba.alpha_foldl_coveredBy_mem hcolors (hbase'.alpha_mem hbefore)
      rw [step, pixel_blend _ _ _ _ _ hx' hy', ih hbefore hbase',
        FrameStep.contributions_concat_blend, List.foldl_append]
      split_ifs with hat hflag
      · subst hflag
        rw [Rgba.premultiply_onto, Rgba.onto_eq_overlay hc.1, List.foldl_cons, List.foldl_nil,
          Rgba.premultiply_coveredBy hhistory hc]
      · rw [Bool.not_eq_true] at hflag
        subst hflag
        rw [Rgba.onto_eq_overlay hc.1, List.foldl_cons, List.foldl_nil,
          Rgba.premultiply_coveredBy hhistory hc]
      · rfl

theorem pixel?_run (hx : column < f.width) (hy : row < f.height) :
    (f.run steps).pixel? (Scalar.ofNat column) (Scalar.ofNat row)
      = .ok (((FrameStep.contributions column row steps).foldl Rgba.coveredBy
          base).premultiply.map some) := by
  rw [pixel?_ofNat _ (by rwa [width_run]) (by rwa [height_run]), pixel_run hsteps hbase hx hy]

end

/-- Frames composite as straight colours do: the stored value of a pixel is the premultiplication
of what was blended at it since the last clear, each contribution put on top of the ones before.
The rule that puts one straight colour on top of another is associative up to premultiplication,
so that a run which brings a stretch of the contributions merged stores the same value. -/
theorem pixel_run_eq_foldl :
    (∀ (f : Frame ℝ) (steps : List (FrameStep ℝ)),
      (∀ step ∈ steps, step.color.a ∈ Set.Icc (0 : ℝ) 1) →
      ∀ (column row : Nat) (base : Rgba ℝ), column < f.width → row < f.height →
      f.StartsFrom column row steps base →
        (f.run steps).pixel? (Scalar.ofNat column) (Scalar.ofNat row)
          = .ok (((FrameStep.contributions column row steps).foldl Rgba.coveredBy
              base).premultiply.map some))
    ∧ (∀ c d e : Rgba ℝ, c.a ∈ Set.Icc (0 : ℝ) 1 → d.a ∈ Set.Icc (0 : ℝ) 1 →
      e.a ∈ Set.Icc (0 : ℝ) 1 →
        ((c.coveredBy d).coveredBy e).premultiply = (c.coveredBy (d.coveredBy e)).premultiply)
    ∧ ∀ (f f' : Frame ℝ) (steps steps' : List (FrameStep ℝ)),
      (∀ step ∈ steps ++ steps', step.color.a ∈ Set.Icc (0 : ℝ) 1) →
      ∀ (column row : Nat) (base first : Rgba ℝ) (before group after : List (Rgba ℝ)),
      column < f.width → row < f.height → column < f'.width → row < f'.height →
      f.StartsFrom column row steps base → f'.StartsFrom column row steps' base →
      FrameStep.contributions column row steps = before ++ (first :: group) ++ after →
      FrameStep.contributions column row steps'
        = before ++ [group.foldl Rgba.coveredBy first] ++ after →
        (f'.run steps').pixel? (Scalar.ofNat column) (Scalar.ofNat row)
          = (f.run steps).pixel? (Scalar.ofNat column) (Scalar.ofNat row) := by
  refine ⟨fun f steps hsteps column row base hx hy hbase => pixel?_run hsteps hbase hx hy,
    fun c d e => Rgba.premultiply_coveredBy_assoc, ?_⟩
  intro f f' steps steps' hsteps column row base first before group after hx hy hx' hy' hbase
    hbase' hwhole hmerged
  obtain ⟨hsteps, hsteps'⟩ := List.forall_mem_append.mp hsteps
  have hcolors : ∀ c ∈ FrameStep.contributions column row steps, c.a ∈ Set.Icc (0 : ℝ) 1 :=
    contributions_mem hsteps
  rw [hwhole] at hcolors
  rw [pixel?_run hsteps hbase hx hy, pixel?_run hsteps' hbase' hx' hy', hwhole, hmerged,
    Rgba.premultiply_foldl_merge hcolors (hbase.alpha_mem hsteps)]

/-- A clear in the middle of a run, contributions outside the frame and at another pixel, and one
without alpha; the other run brings the two contributions that count merged. -/
theorem pixel_run_eq_foldl_cleared :
    let red : Rgba ℝ := ⟨1, 0, 0, 0.5⟩
    let green : Rgba ℝ := ⟨0, 1, 0, 0.5⟩
    let blue : Rgba ℝ := ⟨0, 0, 1, 0⟩
    let steps : List (FrameStep ℝ) := [.blend 1 0 blue false, .clear red, .blend 1 0 green true,
      .blend 0 0 green true, .blend (-1) 0 green false, .blend 1 0 blue false]
    let merged : List (FrameStep ℝ) := [.clear red, .blend 1 0 (green.coveredBy blue) true]
    ((Frame.blank 2 1 : Frame ℝ).run steps).pixel? (Scalar.ofNat 1) (Scalar.ofNat 0)
        = .ok (((red.coveredBy green).coveredBy blue).premultiply.map some)
      ∧ ((red.coveredBy green).coveredBy blue).premultiply
        = (red.coveredBy (green.coveredBy blue)).premultiply
      ∧ ((Frame.blank 3 2 : Frame ℝ).run merged).pixel? (Scalar.ofNat 1) (Scalar.ofNat 0)
        = ((Frame.blank 2 1 : Frame ℝ).run steps).pixel? (Scalar.ofNat 1) (Scalar.ofNat 0) := by
  intro red green blue steps merged
  have hred : red.a ∈ Set.Icc (0 : ℝ) 1 := by norm_num [red]
  have hgreen : green.a ∈ Set.Icc (0 : ℝ) 1 := by norm_num [green]
  have hblue : blue.a ∈ Set.Icc (0 : ℝ) 1 := by norm_num [blue]
  have hsteps : ∀ step ∈ steps, step.color.a ∈ Set.Icc (0 : ℝ) 1 := by
    simp only [steps, List.forall_mem_cons, FrameStep.color, List.not_mem_nil, false_imp_iff,
      implies_true, and_true]
    exact ⟨hblue, hred, hgreen, hgreen, hgreen, hblue⟩
  have hboth : ∀ step ∈ steps ++ merged, step.color.a ∈ Set.Icc (0 : ℝ) 1 := by
    refine List.forall_mem_append.mpr ⟨hsteps, ?_⟩
    simp only [merged, List.forall_mem_cons, FrameStep.color, List.not_mem_nil, false_imp_iff,
      implies_true, and_true]
    exact ⟨hred, Rgba.alpha_coveredBy_mem hgreen hblue⟩
  refine ⟨?_, pixel_run_eq_foldl.2.1 red green blue hred hgreen hblue, ?_⟩
  · exact pixel_run_eq_foldl.1 (Frame.blank 2 1) steps hsteps 1 0 red (by decide) (by decide)
      (Or.inl rfl)
  · exact pixel_run_eq_foldl.2.2 (Frame.blank 2 1) (Frame.blank 3 2) steps merged hboth 1 0 red
      green [] [blue] [] (by decide) (by decide) (by decide) (by decide) (Or.inl rfl) (Or.inl rfl)
      rfl rfl

end Frame

end Raster
