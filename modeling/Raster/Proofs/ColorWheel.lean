import Raster.Scalar.Real
import Raster.Proofs.Hsl

/-!
# The colour wheel

Between hue, saturation and lightness on the one side and encoded channels
on the other stands a third description of a colour: its sextant of the
wheel, the fraction of the way through it, the smallest channel and the
distance from there to the largest (`Sextant.place`, `Sextant.run`). Each
direction of the conversion is one equation about it,
`Hsla.toSrgb_of_sextant` and `Hsla.ofSrgb_place`, and every colour that is
not gray has one (`Rgba.exists_place`). So the two directions undo each
other wherever there is something to undo (`color_wheel_round_trip`).

The sextants share their borders: at fraction 0 two channels are equal. The
borders belong to the sextant that begins there, and reading a tie of
channels back leads to the same place.
-/

namespace Raster

/-! ## Sextants -/

/-- The sixths of the wheel, from hue 0 on. -/
inductive Sextant where
  | redYellow
  | yellowGreen
  | greenCyan
  | cyanBlue
  | blueMagenta
  | magentaRed
  deriving Repr, DecidableEq

namespace Sextant

/-- How many sextants there are before this one. -/
def number : Sextant → ℕ
  | redYellow => 0
  | yellowGreen => 1
  | greenCyan => 2
  | cyanBlue => 3
  | blueMagenta => 4
  | magentaRed => 5

/-- The colour of a sextant with its smallest channel, the one that runs, and its largest. -/
def place {α : Type} (k : Sextant) (low running high a : α) : Rgba α :=
  match k with
  | redYellow => ⟨high, running, low, a⟩
  | yellowGreen => ⟨running, high, low, a⟩
  | greenCyan => ⟨low, high, running, a⟩
  | cyanBlue => ⟨low, running, high, a⟩
  | blueMagenta => ⟨running, low, high, a⟩
  | magentaRed => ⟨high, low, running, a⟩

/-- How high the running channel stands at the fraction `t` of the way: it goes up in every other
sextant and down in the rest. -/
def run {α : Type} [Scalar α] (k : Sextant) (t : α) : α :=
  match k with
  | redYellow | greenCyan | blueMagenta => t
  | yellowGreen | cyanBlue | magentaRed => 1 - t

@[simp]
theorem alpha_place {α : Type} (k : Sextant) (low running high a : α) :
    (k.place low running high a).a = a := by
  cases k <;> rfl

theorem place_self {α : Type} (k : Sextant) (v a : α) : k.place v v v a = ⟨v, v, v, a⟩ := by
  cases k <;> rfl

theorem exists_number_add {x : ℝ} (hx : x ∈ Set.Ico (0 : ℝ) 6) :
    ∃ (k : Sextant) (t : ℝ), t ∈ Set.Ico (0 : ℝ) 1 ∧ x = k.number + t := by
  obtain ⟨hlow, hhigh⟩ := hx
  have hfloor : ⌊x⌋₊ < 6 := (Nat.floor_lt hlow).mpr hhigh
  have hnumber : ∃ k : Sextant, k.number = ⌊x⌋₊ := by
    generalize ⌊x⌋₊ = n at hfloor
    match n, hfloor with
    | 0, _ => exact ⟨redYellow, rfl⟩
    | 1, _ => exact ⟨yellowGreen, rfl⟩
    | 2, _ => exact ⟨greenCyan, rfl⟩
    | 3, _ => exact ⟨cyanBlue, rfl⟩
    | 4, _ => exact ⟨blueMagenta, rfl⟩
    | 5, _ => exact ⟨magentaRed, rfl⟩
  obtain ⟨k, hk⟩ := hnumber
  refine ⟨k, x - ⌊x⌋₊, ⟨?_, ?_⟩, ?_⟩
  · exact sub_nonneg.mpr (Nat.floor_le hlow)
  · exact sub_lt_iff_lt_add'.mpr (Nat.lt_floor_add_one x)
  · rw [hk, add_sub_cancel]

theorem number_add_div_mem (k : Sextant) {t : ℝ} (ht : t ∈ Set.Ico (0 : ℝ) 1) :
    (k.number + t) / 6 ∈ Set.Ico (0 : ℝ) 1 := by
  obtain ⟨hlow, hhigh⟩ := ht
  have hnumber : (k.number : ℝ) ≤ 5 := by
    cases k <;> norm_num [number]
  refine ⟨by positivity, ?_⟩
  rw [div_lt_one (by norm_num)]
  linarith

theorem run_mem (k : Sextant) {t : ℝ} (ht : t ∈ Set.Ico (0 : ℝ) 1) :
    k.run t ∈ Set.Icc (0 : ℝ) 1 := by
  obtain ⟨hlow, hhigh⟩ := ht
  have hdown : 1 - t ∈ Set.Icc (0 : ℝ) 1 := ⟨by linarith, by linarith⟩
  cases k with
  | redYellow | greenCyan | blueMagenta => exact ⟨hlow, hhigh.le⟩
  | yellowGreen | cyanBlue | magentaRed => exact hdown

/-- The running channel is between the two others. -/
theorem add_run_mem (k : Sextant) {t low c : ℝ} (ht : t ∈ Set.Ico (0 : ℝ) 1) (hc : 0 ≤ c) :
    low + c * k.run t ∈ Set.Icc low (low + c) := by
  obtain ⟨hlow, hhigh⟩ := k.run_mem ht
  exact ⟨le_add_of_nonneg_right (mul_nonneg hc hlow),
    add_le_add_right (mul_le_of_le_one_right hc hhigh) low⟩

/-- Where the running channel may be: it can reach the channel from which its sextant begins to
run, and not the other one. -/
def Between (k : Sextant) (low running high : ℝ) : Prop :=
  match k with
  | redYellow | greenCyan | blueMagenta => low ≤ running ∧ running < high
  | yellowGreen | cyanBlue | magentaRed => low < running ∧ running ≤ high

theorem Between.le {k : Sextant} {low running high : ℝ} (h : k.Between low running high) :
    low ≤ running ∧ running ≤ high := by
  cases k with
  | redYellow | greenCyan | blueMagenta => exact ⟨h.1, h.2.le⟩
  | yellowGreen | cyanBlue | magentaRed => exact ⟨h.1.le, h.2⟩

theorem Between.exists_run {k : Sextant} {low running high : ℝ}
    (h : k.Between low running high) :
    ∃ t ∈ Set.Ico (0 : ℝ) 1, running = low + (high - low) * k.run t := by
  -- the fraction is the distance from the end where the sextant begins
  have hup (hlow : low ≤ running) (hhigh : running < high) :
      ∃ t ∈ Set.Ico (0 : ℝ) 1, running = low + (high - low) * t := by
    have hdelta : 0 < high - low := by linarith
    refine ⟨(running - low) / (high - low), ⟨?_, ?_⟩, ?_⟩
    · exact div_nonneg (by linarith) hdelta.le
    · rw [div_lt_one hdelta]
      linarith
    · rw [mul_div_cancel₀ _ hdelta.ne', add_sub_cancel]
  have hdown (hlow : low < running) (hhigh : running ≤ high) :
      ∃ t ∈ Set.Ico (0 : ℝ) 1, running = low + (high - low) * (1 - t) := by
    have hdelta : 0 < high - low := by linarith
    refine ⟨(high - running) / (high - low), ⟨?_, ?_⟩, ?_⟩
    · exact div_nonneg (by linarith) hdelta.le
    · rw [div_lt_one hdelta]
      linarith
    · rw [mul_sub, mul_div_cancel₀ _ hdelta.ne']
      ring
  cases k with
  | redYellow | greenCyan | blueMagenta => exact hup h.1 h.2
  | yellowGreen | cyanBlue | magentaRed => exact hdown h.1 h.2

/-- What an ordered chain of tests for the sextants finds. -/
noncomputable def choose {β : Type} (x : ℝ) (f : Sextant → β) : β :=
  if 0 ≤ x ∧ x < 1 then f redYellow
  else if 1 ≤ x ∧ x < 2 then f yellowGreen
  else if 2 ≤ x ∧ x < 3 then f greenCyan
  else if 3 ≤ x ∧ x < 4 then f cyanBlue
  else if 4 ≤ x ∧ x < 5 then f blueMagenta
  else f magentaRed

theorem choose_eq {β : Type} (f : Sextant → β) {k : Sextant} {x : ℝ} (hlow : k.number ≤ x)
    (hhigh : x < k.number + 1) : choose x f = f k := by
  have hpast {low high : ℝ} (h : high ≤ x) : ¬ (low ≤ x ∧ x < high) := fun hin => hin.2.not_ge h
  unfold choose
  cases k with
  | redYellow =>
    norm_num [number] at hlow hhigh
    rw [if_pos ⟨hlow, hhigh⟩]
  | yellowGreen =>
    norm_num [number] at hlow hhigh
    rw [if_neg (hpast hlow), if_pos ⟨hlow, hhigh⟩]
  | greenCyan =>
    norm_num [number] at hlow hhigh
    have h1 : 1 ≤ x := by linarith
    rw [if_neg (hpast h1), if_neg (hpast hlow), if_pos ⟨hlow, hhigh⟩]
  | cyanBlue =>
    norm_num [number] at hlow hhigh
    have h1 : 1 ≤ x := by linarith
    have h2 : 2 ≤ x := by linarith
    rw [if_neg (hpast h1), if_neg (hpast h2), if_neg (hpast hlow), if_pos ⟨hlow, hhigh⟩]
  | blueMagenta =>
    norm_num [number] at hlow hhigh
    have h1 : 1 ≤ x := by linarith
    have h2 : 2 ≤ x := by linarith
    have h3 : 3 ≤ x := by linarith
    rw [if_neg (hpast h1), if_neg (hpast h2), if_neg (hpast h3), if_neg (hpast hlow),
      if_pos ⟨hlow, hhigh⟩]
  | magentaRed =>
    norm_num [number] at hlow hhigh
    have h1 : 1 ≤ x := by linarith
    have h2 : 2 ≤ x := by linarith
    have h3 : 3 ≤ x := by linarith
    have h4 : 4 ≤ x := by linarith
    rw [if_neg (hpast h1), if_neg (hpast h2), if_neg (hpast h3), if_neg (hpast h4),
      if_neg (hpast hlow)]

end Sextant

/-! ## From hue to channels -/

theorem Scalar.rem_two {x : ℝ} {n : ℕ} (hlow : 2 * (n : ℝ) ≤ x) (hhigh : x < 2 * n + 2) :
    Scalar.rem x 2 = x - 2 * n := by
  have hhalf : 0 ≤ x / 2 := by
    have hn : (0 : ℝ) ≤ n := Nat.cast_nonneg n
    linarith
  have hfloor : truncate (x / 2) = n := by
    rw [truncate, if_pos hhalf, Int.floor_eq_iff]
    push_cast
    constructor <;> linarith
  show x - 2 * (truncate (x / 2) : ℝ) = _
  rw [hfloor, Int.cast_natCast]

/-- The running channel as it is worked out: up in the sextants with an even number. -/
theorem Sextant.run_eq (k : Sextant) {t : ℝ} (ht : t ∈ Set.Ico (0 : ℝ) 1) :
    1 - |Scalar.rem (k.number + t) 2 - 1| = k.run t := by
  obtain ⟨hlow, hhigh⟩ := ht
  have hup (n : ℕ) {x : ℝ} (hx : x = 2 * n + t) : 1 - |Scalar.rem x 2 - 1| = t := by
    rw [Scalar.rem_two (show 2 * (n : ℝ) ≤ x by linarith) (by linarith),
      abs_of_nonpos (by linarith), hx]
    ring
  have hdown (n : ℕ) {x : ℝ} (hx : x = 2 * n + 1 + t) : 1 - |Scalar.rem x 2 - 1| = 1 - t := by
    rw [Scalar.rem_two (show 2 * (n : ℝ) ≤ x by linarith) (by linarith),
      abs_of_nonneg (by linarith), hx]
    ring
  cases k with
  | redYellow => exact hup 0 (by norm_num [number])
  | yellowGreen => exact hdown 0 (by norm_num [number])
  | greenCyan => exact hup 1 (by norm_num [number])
  | cyanBlue => exact hdown 1 (by norm_num [number])
  | blueMagenta => exact hup 2 (by norm_num [number])
  | magentaRed => exact hdown 2 (by norm_num [number])

namespace Hsla

theorem toSrgb_eq_choose (x : Hsla ℝ) :
    x.toSrgb = Sextant.choose (wrapHue x.h * 6) fun k =>
      k.place x.base (x.base + x.chroma * (1 - |Scalar.rem (wrapHue x.h * 6) 2 - 1|))
        (x.base + x.chroma) x.a := rfl

theorem toSrgb_of_sextant {x : Hsla ℝ} {k : Sextant} {t : ℝ} (ht : t ∈ Set.Ico (0 : ℝ) 1)
    (hx : wrapHue x.h * 6 = k.number + t) :
    x.toSrgb = k.place x.base (x.base + x.chroma * k.run t) (x.base + x.chroma) x.a := by
  rw [toSrgb_eq_choose, hx, k.run_eq ht]
  exact Sextant.choose_eq _ (by linarith [ht.1]) (by linarith [ht.2])

/-- Every hue is somewhere in a sextant. -/
theorem exists_toSrgb_eq_place (x : Hsla ℝ) : ∃ (k : Sextant) (t : ℝ), t ∈ Set.Ico (0 : ℝ) 1
    ∧ wrapHue x.h * 6 = k.number + t
    ∧ x.toSrgb = k.place x.base (x.base + x.chroma * k.run t) (x.base + x.chroma) x.a := by
  obtain ⟨hlow, hhigh⟩ := wrapHue_mem x.h
  obtain ⟨k, t, ht, hx⟩ := Sextant.exists_number_add
    (show wrapHue x.h * 6 ∈ Set.Ico (0 : ℝ) 6 from ⟨by linarith, by linarith⟩)
  exact ⟨k, t, ht, hx, toSrgb_of_sextant ht hx⟩

/-- Whole turns of the hue change nothing. -/
theorem toSrgb_add_int (x : Hsla ℝ) (n : ℤ) :
    ({ x with h := x.h + n } : Hsla ℝ).toSrgb = x.toSrgb := by
  have hturn : wrapHue (x.h + n) = wrapHue x.h := by
    rw [wrapHue_eq_fract, wrapHue_eq_fract, Int.fract_add_intCast]
  rw [toSrgb_eq_choose, toSrgb_eq_choose]
  dsimp only
  rw [hturn]
  rfl

end Hsla

/-! ## From channels to hue -/

namespace Rgba

section
variable {α : Type} [Scalar α]

def largest (c : Rgba α) : α := max (max c.r c.g) c.b

def smallest (c : Rgba α) : α := min (min c.r c.g) c.b

/-- Six times the hue that is read from a colour whose largest channel is `top` and whose smallest
is lower by `delta`. -/
def sextants (c : Rgba α) (top delta : α) : α :=
  if top == c.r then (c.g - c.b) / delta + (if c.g < c.b then 6 else 0)
  else if top == c.g then (c.b - c.r) / delta + 2
  else (c.r - c.g) / delta + 4

end

theorem sextants_mk (r g b a top delta : ℝ) :
    (⟨r, g, b, a⟩ : Rgba ℝ).sextants top delta =
      if top = r then (g - b) / delta + (if g < b then 6 else 0)
      else if top = g then (b - r) / delta + 2
      else (r - g) / delta + 4 := by
  simp only [sextants, Scalar.beq_iff_eq]

end Rgba

namespace Sextant

section
variable (k : Sextant) {low running high : ℝ} (hlow : low ≤ running) (hhigh : running ≤ high)
include hlow hhigh

theorem largest_place (a : ℝ) : (k.place low running high a).largest = high := by
  have hall := hlow.trans hhigh
  cases k <;> simp [place, Rgba.largest, hlow, hhigh, hall]

theorem smallest_place (a : ℝ) : (k.place low running high a).smallest = low := by
  have hall := hlow.trans hhigh
  cases k <;> simp [place, Rgba.smallest, hlow, hhigh, hall]

end

/-- The hue that is read at some place of the wheel is the hue of the place. -/
theorem sextants_place (k : Sextant) {t low c : ℝ} (ht : t ∈ Set.Ico (0 : ℝ) 1) (hc : 0 < c)
    (a : ℝ) :
    (k.place low (low + c * k.run t) (low + c) a).sextants (low + c) c = k.number + t := by
  obtain ⟨ht0, ht1⟩ := ht
  have hbelow : c * t < c := mul_lt_of_lt_one_right hc ht1
  have habove : 0 ≤ c * t := mul_nonneg hc.le ht0
  have hup : (low + c * t - low) / c = t := by
    rw [add_sub_cancel_left, mul_div_cancel_left₀ t hc.ne']
  have hdown : (low - (low + c * (1 - t))) / c = t - 1 := by
    rw [sub_add_cancel_left, neg_div, mul_div_cancel_left₀ _ hc.ne', neg_sub]
  -- a channel that runs down ties with the largest where the sextant begins
  have htie : low + c = low + c * (1 - t) ↔ t = 0 := by
    constructor
    · intro h
      have hzero : c * t = 0 := by linarith
      exact (mul_eq_zero.mp hzero).resolve_left hc.ne'
    · rintro rfl
      ring
  cases k with
  | redYellow =>
    show Rgba.sextants ⟨low + c, low + c * t, low, a⟩ _ _ = ((0 : ℕ) : ℝ) + t
    rw [Rgba.sextants_mk, if_pos rfl, hup, if_neg (by linarith)]
    norm_num
  | yellowGreen =>
    show Rgba.sextants ⟨low + c * (1 - t), low + c, low, a⟩ _ _ = ((1 : ℕ) : ℝ) + t
    rw [Rgba.sextants_mk]
    rcases eq_or_ne t 0 with hzero | hzero
    · rw [if_pos (htie.mpr hzero), add_sub_cancel_left, div_self hc.ne', if_neg (by linarith),
        hzero]
      norm_num
    · rw [if_neg (mt htie.mp hzero), if_pos rfl, hdown]
      norm_num
      ring
  | greenCyan =>
    show Rgba.sextants ⟨low, low + c, low + c * t, a⟩ _ _ = ((2 : ℕ) : ℝ) + t
    rw [Rgba.sextants_mk, if_neg (by linarith), if_pos rfl, hup]
    norm_num [add_comm]
  | cyanBlue =>
    show Rgba.sextants ⟨low, low + c * (1 - t), low + c, a⟩ _ _ = ((3 : ℕ) : ℝ) + t
    rw [Rgba.sextants_mk, if_neg (by linarith)]
    rcases eq_or_ne t 0 with hzero | hzero
    · rw [if_pos (htie.mpr hzero), add_sub_cancel_left, div_self hc.ne', hzero]
      norm_num
    · rw [if_neg (mt htie.mp hzero), hdown]
      norm_num
      ring
  | blueMagenta =>
    show Rgba.sextants ⟨low + c * t, low, low + c, a⟩ _ _ = ((4 : ℕ) : ℝ) + t
    rw [Rgba.sextants_mk, if_neg (by linarith), if_neg (by linarith), hup]
    norm_num [add_comm]
  | magentaRed =>
    show Rgba.sextants ⟨low + c, low, low + c * (1 - t), a⟩ _ _ = ((5 : ℕ) : ℝ) + t
    rw [Rgba.sextants_mk, if_pos rfl, hdown, if_pos (by linarith)]
    norm_num
    ring

end Sextant

/-- The largest distance that two channels of the lightness `l` can have. -/
def room {α : Type} [Scalar α] (l : α) : α := 1 - Scalar.abs (2 * l - 1)

theorem room_pos {l : ℝ} (hl : l ∈ Set.Ioo (0 : ℝ) 1) : 0 < room l := by
  have hdistance : |2 * l - 1| < 1 := abs_lt.mpr ⟨by linarith [hl.1], by linarith [hl.2]⟩
  exact sub_pos.mpr hdistance

/-- The distance to white counts for a light colour, and the distance to black for a dark one. -/
theorem room_eq (l : ℝ) : room l = if 1 / 2 < l then 2 - 2 * l else 2 * l := by
  show 1 - |2 * l - 1| = _
  split_ifs with h
  · rw [abs_of_pos (by linarith)]
    ring
  · rw [abs_of_nonpos (by linarith)]
    ring

namespace Hsla

theorem alpha_ofSrgb (c : Rgba ℝ) : (ofSrgb c).a = c.a := by
  unfold ofSrgb
  dsimp only
  split_ifs <;> rfl

theorem ofSrgb_of_gray {c : Rgba ℝ} (h : c.largest = c.smallest) :
    ofSrgb c = ⟨0, 0, (c.largest + c.smallest) / 2, c.a⟩ :=
  if_pos (Scalar.beq_iff_eq.mpr (sub_eq_zero.mpr h))

theorem ofSrgb_of_ne {c : Rgba ℝ} (h : c.largest ≠ c.smallest) :
    ofSrgb c =
      let l := (c.largest + c.smallest) / 2
      let delta := c.largest - c.smallest
      ⟨c.sextants c.largest delta / 6, delta / room l, l, c.a⟩ := by
  have hdelta : ¬ (c.largest - c.smallest == 0) = true := by
    rw [Scalar.beq_iff_eq, sub_eq_zero]
    exact h
  have hhalf : (0.5 : ℝ) = 1 / 2 := by norm_num
  have hsaturation (largest smallest : ℝ) :
      (if 0.5 < (largest + smallest) / 2 then (largest - smallest) / (2 - largest - smallest)
        else (largest - smallest) / (largest + smallest))
        = (largest - smallest) / room ((largest + smallest) / 2) := by
    rw [room_eq, hhalf]
    split_ifs
    · congr 1
      ring
    · congr 1
      ring
  dsimp only
  rw [← hsaturation]
  exact if_neg hdelta

/-- Reading back a place of the wheel. -/
theorem ofSrgb_place (k : Sextant) {t low c : ℝ} (ht : t ∈ Set.Ico (0 : ℝ) 1) (hc : 0 < c)
    (a : ℝ) :
    ofSrgb (k.place low (low + c * k.run t) (low + c) a) =
      ⟨(k.number + t) / 6, c / room (low + c / 2), low + c / 2, a⟩ := by
  obtain ⟨hlow, hhigh⟩ : low + c * k.run t ∈ Set.Icc low (low + c) := k.add_run_mem ht hc.le
  have hlargest := k.largest_place hlow hhigh a
  have hsmallest := k.smallest_place hlow hhigh a
  have hdelta : low + c - low = c := add_sub_cancel_left low c
  have hmiddle : (low + c + low) / 2 = low + c / 2 := by ring
  rw [ofSrgb_of_ne (by rw [hlargest, hsmallest]; linarith), hlargest, hsmallest]
  dsimp only
  rw [hdelta, hmiddle, k.sextants_place ht hc a, k.alpha_place]

end Hsla

/-! ## The round trip -/

namespace Rgba

theorem smallest_le_largest (c : Rgba ℝ) : c.smallest ≤ c.largest :=
  (min_le_right _ _).trans (le_max_right _ _)

theorem mem_iff {c : Rgba ℝ} {low high : ℝ} :
    (c.r ∈ Set.Icc low high ∧ c.g ∈ Set.Icc low high ∧ c.b ∈ Set.Icc low high)
      ↔ low ≤ c.smallest ∧ c.largest ≤ high := by
  simp only [smallest, largest, le_min_iff, max_le_iff, Set.mem_Icc]
  tauto

theorem eq_of_gray {c : Rgba ℝ} (h : c.largest = c.smallest) :
    c = ⟨(c.largest + c.smallest) / 2, (c.largest + c.smallest) / 2,
      (c.largest + c.smallest) / 2, c.a⟩ := by
  obtain ⟨⟨hr, hr'⟩, ⟨hg, hg'⟩, ⟨hb, hb'⟩⟩ := mem_iff.mpr ⟨le_refl c.smallest, le_refl c.largest⟩
  have hred : c.r = (c.largest + c.smallest) / 2 := by linarith
  have hgreen : c.g = (c.largest + c.smallest) / 2 := by linarith
  have hblue : c.b = (c.largest + c.smallest) / 2 := by linarith
  calc c = ⟨c.r, c.g, c.b, c.a⟩ := rfl
    _ = _ := by rw [hred, hgreen, hblue]

/-- The sextant of a colour that is not gray: which of its channels is the largest, which the
smallest, and which of the two it is when they tie with the third. -/
theorem exists_sextant {c : Rgba ℝ} (h : c.largest ≠ c.smallest) :
    ∃ (k : Sextant) (low running high : ℝ),
      k.Between low running high ∧ c = k.place low running high c.a := by
  have hdistinct : ¬ (c.r = c.g ∧ c.g = c.b) := by
    rintro ⟨hrg, hgb⟩
    refine h ?_
    simp [largest, smallest, hrg, hgb]
  have horder : (c.b ≤ c.g ∧ c.g < c.r) ∨ (c.b < c.r ∧ c.r ≤ c.g) ∨ (c.r ≤ c.b ∧ c.b < c.g)
      ∨ (c.r < c.g ∧ c.g ≤ c.b) ∨ (c.g ≤ c.r ∧ c.r < c.b) ∨ (c.g < c.b ∧ c.b ≤ c.r) := by
    grind
  rcases horder with h | h | h | h | h | h
  · exact ⟨.redYellow, _, _, _, h, rfl⟩
  · exact ⟨.yellowGreen, _, _, _, h, rfl⟩
  · exact ⟨.greenCyan, _, _, _, h, rfl⟩
  · exact ⟨.cyanBlue, _, _, _, h, rfl⟩
  · exact ⟨.blueMagenta, _, _, _, h, rfl⟩
  · exact ⟨.magentaRed, _, _, _, h, rfl⟩

/-- Every colour that is not gray has a place on the wheel. -/
theorem exists_place {c : Rgba ℝ} (h : c.largest ≠ c.smallest) :
    ∃ (k : Sextant) (t : ℝ), t ∈ Set.Ico (0 : ℝ) 1 ∧
      c = k.place c.smallest (c.smallest + (c.largest - c.smallest) * k.run t)
        (c.smallest + (c.largest - c.smallest)) c.a := by
  obtain ⟨k, low, running, high, hbetween, hc⟩ := exists_sextant h
  obtain ⟨hlow, hhigh⟩ := hbetween.le
  have hlargest : c.largest = high := by rw [hc, k.largest_place hlow hhigh]
  have hsmallest : c.smallest = low := by rw [hc, k.smallest_place hlow hhigh]
  obtain ⟨t, ht, hrunning⟩ := hbetween.exists_run
  refine ⟨k, t, ht, ?_⟩
  rw [hlargest, hsmallest, ← hrunning, add_sub_cancel]
  exact hc

end Rgba

namespace Hsla

theorem extremes_toSrgb {x : Hsla ℝ} (hchroma : 0 ≤ x.chroma) :
    x.toSrgb.largest = x.base + x.chroma ∧ x.toSrgb.smallest = x.base := by
  obtain ⟨k, t, ht, -, heq⟩ := x.exists_toSrgb_eq_place
  obtain ⟨hlow, hhigh⟩ : x.base + x.chroma * k.run t ∈ Set.Icc x.base (x.base + x.chroma) :=
    k.add_run_mem ht hchroma
  rw [heq]
  exact ⟨k.largest_place hlow hhigh x.a, k.smallest_place hlow hhigh x.a⟩

/-- The largest and the smallest channel lie around the lightness. -/
theorem base_add_half (x : Hsla ℝ) : x.base + x.chroma / 2 = x.l := sub_add_cancel _ _

theorem toSrgb_of_chroma_eq_zero {x : Hsla ℝ} (h : x.chroma = 0) :
    x.toSrgb = ⟨x.l, x.l, x.l, x.a⟩ := by
  have hbase : x.base = x.l := by rw [base, h, zero_div, sub_zero]
  obtain ⟨k, t, -, -, heq⟩ := x.exists_toSrgb_eq_place
  rw [heq, h, hbase, zero_mul, add_zero, k.place_self]

/-- Reading a written colour back. -/
theorem ofSrgb_toSrgb {x : Hsla ℝ} (hh : x.h ∈ Set.Ico (0 : ℝ) 1) (hs : 0 < x.s)
    (hl : x.l ∈ Set.Ioo (0 : ℝ) 1) : ofSrgb x.toSrgb = x := by
  have hchroma : 0 < x.chroma := mul_pos (room_pos hl) hs
  have hhue : wrapHue x.h = x.h := by
    rw [wrapHue_eq_fract]
    exact Int.fract_eq_self.mpr hh
  have hsaturation : x.chroma / room x.l = x.s := mul_div_cancel_left₀ _ (room_pos hl).ne'
  obtain ⟨k, t, ht, hplace, heq⟩ := x.exists_toSrgb_eq_place
  rw [heq, ofSrgb_place k ht hchroma, ← hplace, hhue, base_add_half, hsaturation,
    mul_div_cancel_right₀ _ (by norm_num)]

theorem toSrgb_ofSrgb_place (k : Sextant) {t low c : ℝ} (ht : t ∈ Set.Ico (0 : ℝ) 1)
    (hlow : 0 ≤ low) (hc : 0 < c) (hhigh : low + c ≤ 1) (a : ℝ) :
    (ofSrgb (k.place low (low + c * k.run t) (low + c) a)).toSrgb =
      k.place low (low + c * k.run t) (low + c) a := by
  have hl : low + c / 2 ∈ Set.Ioo (0 : ℝ) 1 := ⟨by linarith, by linarith⟩
  have hhue : wrapHue ((k.number + t) / 6) * 6 = k.number + t := by
    rw [wrapHue_eq_fract, Int.fract_eq_self.mpr (k.number_add_div_mem ht),
      div_mul_cancel₀ _ (by norm_num)]
  rw [ofSrgb_place k ht hc a, toSrgb_of_sextant ht hhue]
  have hchroma : chroma (⟨(k.number + t) / 6, c / room (low + c / 2), low + c / 2, a⟩ : Hsla ℝ)
      = c := mul_div_cancel₀ _ (room_pos hl).ne'
  rw [base, hchroma]
  dsimp only
  rw [add_sub_cancel_right]

/-- Writing a colour that was read. -/
theorem toSrgb_ofSrgb {c : Rgba ℝ} (hlow : 0 ≤ c.smallest) (hhigh : c.largest ≤ 1) :
    (ofSrgb c).toSrgb = c := by
  by_cases hgray : c.largest = c.smallest
  · rw [ofSrgb_of_gray hgray, toSrgb_of_chroma_eq_zero (mul_zero _)]
    exact (Rgba.eq_of_gray hgray).symm
  · obtain ⟨k, t, ht, hc⟩ := Rgba.exists_place hgray
    have hdelta : 0 < c.largest - c.smallest :=
      sub_pos.mpr (lt_of_le_of_ne c.smallest_le_largest (Ne.symm hgray))
    have hplace := toSrgb_ofSrgb_place k ht hlow hdelta (by linarith) c.a
    rwa [← hc] at hplace

end Hsla

/-- The two directions of the conversion undo each other: every colour with channels in the unit
interval is written back as it was read, and every colour of the wheel that is neither gray nor
black nor white is read back as it was written. What is written has its channels in the unit
interval, the largest and the smallest of them at equal distances around the lightness and apart by
the saturation's share of the room there is; whole turns of the hue make no difference. Alpha
passes through in both directions. -/
theorem color_wheel_round_trip :
    (∀ c : Rgba ℝ, c.r ∈ Set.Icc (0 : ℝ) 1 → c.g ∈ Set.Icc (0 : ℝ) 1 → c.b ∈ Set.Icc (0 : ℝ) 1 →
      (Hsla.ofSrgb c).toSrgb = c) ∧
    (∀ x : Hsla ℝ, x.h ∈ Set.Ico (0 : ℝ) 1 → x.s ∈ Set.Ioc (0 : ℝ) 1 → x.l ∈ Set.Ioo (0 : ℝ) 1 →
      Hsla.ofSrgb x.toSrgb = x) ∧
    (∀ x : Hsla ℝ, x.s ∈ Set.Icc (0 : ℝ) 1 → x.l ∈ Set.Icc (0 : ℝ) 1 →
      (x.toSrgb.r ∈ Set.Icc (0 : ℝ) 1 ∧ x.toSrgb.g ∈ Set.Icc (0 : ℝ) 1 ∧
        x.toSrgb.b ∈ Set.Icc (0 : ℝ) 1) ∧
      x.toSrgb.largest + x.toSrgb.smallest = 2 * x.l ∧
      x.toSrgb.largest - x.toSrgb.smallest = (1 - |2 * x.l - 1|) * x.s ∧
      ∀ n : ℤ, ({ x with h := x.h + n } : Hsla ℝ).toSrgb = x.toSrgb) ∧
    (∀ x : Hsla ℝ, x.toSrgb.a = x.a) ∧
    (∀ c : Rgba ℝ, (Hsla.ofSrgb c).a = c.a) := by
  refine ⟨?_, ?_, ?_, Hsla.alpha_toSrgb, Hsla.alpha_ofSrgb⟩
  · intro c hr hg hb
    obtain ⟨hlow, hhigh⟩ := Rgba.mem_iff.mp ⟨hr, hg, hb⟩
    exact Hsla.toSrgb_ofSrgb hlow hhigh
  · intro x hh hs hl
    exact Hsla.ofSrgb_toSrgb hh hs.1 hl
  · intro x hs hl
    have hchroma := Hsla.chroma_nonneg hs hl
    have hmiddle := x.base_add_half
    obtain ⟨hlargest, hsmallest⟩ := Hsla.extremes_toSrgb hchroma
    refine ⟨?_, ?_, ?_, x.toSrgb_add_int⟩
    · rw [Rgba.mem_iff, hlargest, hsmallest]
      exact ⟨Hsla.base_nonneg hs hl, Hsla.base_add_chroma_le_one hs hl⟩
    · rw [hlargest, hsmallest]
      linarith
    · rw [hlargest, hsmallest, add_sub_cancel_left]
      rfl

/-- Yellow, where red and green tie; a dull red near the end of the wheel, and the same hue named
from the other side of 0. -/
theorem color_wheel_round_trip_yellow_red :
    (Hsla.ofSrgb (⟨1, 1, 0, 1 / 4⟩ : Rgba ℝ)).toSrgb = ⟨1, 1, 0, 1 / 4⟩ ∧
    Hsla.ofSrgb (⟨11 / 12, 1 / 2, 3 / 4, 1⟩ : Hsla ℝ).toSrgb = ⟨11 / 12, 1 / 2, 3 / 4, 1⟩ ∧
    (⟨-1 / 12, 1 / 2, 3 / 4, 1⟩ : Hsla ℝ).toSrgb.largest
      + (⟨-1 / 12, 1 / 2, 3 / 4, 1⟩ : Hsla ℝ).toSrgb.smallest = 2 * (3 / 4) := by
  obtain ⟨hread, hwritten, hrange, -, -⟩ := color_wheel_round_trip
  refine ⟨hread _ ?_ ?_ ?_, hwritten _ ?_ ?_ ?_, (hrange _ ?_ ?_).2.1⟩
  all_goals constructor <;> norm_num

end Raster
