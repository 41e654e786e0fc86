import Raster.Scalar.Real
import Raster.Proofs.OuterRamp

/-!
# Waves and their bands

The band of a wavy underline has room for the stroke: the upper edge of the
wave keeps to the three pixels below the top (`Underline.waveTop_mem`), and
the band is three pixels taller than the stroke. It has no room for the
ramp, which covers half a pixel more on both sides of the stroke. At a crest
the outer half of the ramp above the stroke is outside the band, at a trough
that of the ramp below.

What is covered outside the band is told by two distances only, that of the
point from the band and that of the wave from the end of its range
(`Underline.coverage_above`, `Underline.coverage_below`). So no point is
lost that is more than half covered, or as far as half a pixel from the
band, and for some places of the band no pixel is
(`Underline.wave_drawn_in_band`).
-/

namespace Raster

namespace Underline

variable {u : Underline ℝ} {p : Point ℝ}

/-- The upper edge of the wave in the column of a point, below the top of the band. -/
noncomputable def topAt (u : Underline ℝ) (p : Point ℝ) : ℝ := waveTop (p.x - u.band.origin.x)

noncomputable def bandBottom (u : Underline ℝ) : ℝ := u.band.origin.y + u.band.size.height

theorem waveTop_mem (x : ℝ) : waveTop x ∈ Set.Icc (0 : ℝ) 3 := by
  have hwave : waveTop x = 1.5 + 1.5 * Real.sin (2 * Real.pi * x / 6) := rfl
  have hlow := Real.neg_one_le_sin (2 * Real.pi * x / 6)
  have hhigh := Real.sin_le_one (2 * Real.pi * x / 6)
  rw [hwave]
  constructor <;> linarith

theorem topAt_mem (u : Underline ℝ) (p : Point ℝ) : u.topAt p ∈ Set.Icc (0 : ℝ) 3 := waveTop_mem _

section
variable (hthickness : 0 ≤ u.thickness)
include hthickness

theorem coverageAt_of_thickness_nonneg : u.coverageAt p
    = saturate (u.thickness / 2 - |p.y - u.band.origin.y - u.thickness / 2 - u.topAt p| + 1 / 2) := by
  rw [coverageAt_eq, waveDistance, max_eq_left hthickness]
  rfl

theorem coverage_above (habove : p.y < u.band.origin.y) (hseen : 0 < u.coverageAt p) :
    u.coverageAt p = 1 / 2 - (u.band.origin.y - p.y) - u.topAt p := by
  obtain ⟨htop, -⟩ := u.topAt_mem p
  have hcoverage : u.coverageAt p = saturate (1 / 2 - (u.band.origin.y - p.y) - u.topAt p) := by
    rw [coverageAt_of_thickness_nonneg hthickness, abs_of_nonpos (by linarith)]
    ring_nf
  rw [hcoverage] at hseen ⊢
  exact saturate_eq_self (saturate_pos_iff.mp hseen).le (by linarith)

variable (hwavy : u.wavy = true)
include hwavy

theorem bandBottom_eq : u.bandBottom = u.band.origin.y + u.thickness + 3 := by
  have hheight : u.band.size.height = u.thickness + 3 := by
    unfold band
    rw [hwavy, max_eq_left hthickness]
    show u.thickness + 2 * 1.5 = u.thickness + 3
    norm_num
  rw [bandBottom, hheight, add_assoc]

theorem coverage_below (hbelow : u.bandBottom ≤ p.y) (hseen : 0 < u.coverageAt p) :
    u.coverageAt p = 1 / 2 - (p.y - u.bandBottom) - (3 - u.topAt p) := by
  obtain ⟨-, htop⟩ := u.topAt_mem p
  rw [bandBottom_eq hthickness hwavy] at hbelow ⊢
  have hcoverage : u.coverageAt p
      = saturate (1 / 2 - (p.y - (u.band.origin.y + u.thickness + 3)) - (3 - u.topAt p)) := by
    rw [coverageAt_of_thickness_nonneg hthickness, abs_of_nonneg (by linarith)]
    ring_nf
  rw [hcoverage] at hseen ⊢
  exact saturate_eq_self (saturate_pos_iff.mp hseen).le (by linarith)

/-- A wave is seen less than half a pixel outside its band. -/
theorem rows_of_seen (hseen : 0 < u.coverageAt p) :
    u.band.origin.y - 1 / 2 < p.y ∧ p.y < u.bandBottom + 1 / 2 := by
  obtain ⟨htop, htop'⟩ := u.topAt_mem p
  constructor
  · rcases lt_or_ge p.y u.band.origin.y with habove | hbehind
    · have hcoverage := coverage_above hthickness habove hseen
      linarith
    · linarith
  · rcases lt_or_ge p.y u.bandBottom with hbefore | hbelow
    · linarith
    · have hcoverage := coverage_below hthickness hwavy hbelow hseen
      linarith

/-- Outside the band the wave covers half of a point at most. -/
theorem rows_of_half_seen (hhalf : 1 / 2 < u.coverageAt p) :
    u.band.origin.y ≤ p.y ∧ p.y < u.bandBottom := by
  have hseen : 0 < u.coverageAt p := one_half_pos.trans hhalf
  obtain ⟨htop, htop'⟩ := u.topAt_mem p
  constructor
  · by_contra habove
    have hcoverage := coverage_above hthickness (not_le.mp habove) hseen
    linarith
  · by_contra hbelow
    have hcoverage := coverage_below hthickness hwavy (not_lt.mp hbelow) hseen
    linarith

end

/-- A wave at a point that it covers, between the ends of its underline. The band has the point
exactly if it has its row, and only there the wave is drawn. It has every point that is more than
half covered. Outside, the coverage is one half less the distance of the point from the band and
that of the wave from the end of its range, and a band taller by half a pixel on both sides would
have all of it. No pixel centre is outside if the band's top is in the upper half of a pixel and
its bottom in the lower half of one or between two. -/
theorem wave_drawn_in_band (hwavy : u.wavy = true) (hthickness : 0 ≤ u.thickness)
    (hx : u.bounds.origin.x ≤ p.x ∧ p.x < u.bounds.origin.x + u.bounds.size.width)
    (hseen : 0 < u.coverageAt p) :
    (u.band.contains p = true ↔ u.band.origin.y ≤ p.y ∧ p.y < u.bandBottom)
      ∧ (1 / 2 < u.coverageAt p → u.band.contains p = true)
      ∧ (p.y < u.band.origin.y →
        u.coverageAt p = 1 / 2 - (u.band.origin.y - p.y) - u.topAt p)
      ∧ (u.bandBottom ≤ p.y → u.coverageAt p = 1 / 2 - (p.y - u.bandBottom) - (3 - u.topAt p))
      ∧ (u.band.expand 0 (1 / 2)).contains p = true
      ∧ (Int.fract u.band.origin.y ≤ 1 / 2 →
        Int.fract u.bandBottom = 0 ∨ 1 / 2 < Int.fract u.bandBottom →
        ∀ row : ℕ, p.y = row + 1 / 2 → u.band.contains p = true)
      ∧ ∀ ctx : FrameContext ℝ, u.contentMask.clips p = false →
        u.shade p ctx = if u.band.contains p then
          u.color.toLinear.fade (u.coverageAt p) ctx.premultipliedAlpha else Rgba.transparent := by
  have hcolumns : u.band.origin.x ≤ p.x ∧ p.x < u.band.origin.x + u.band.size.width := by
    unfold band
    rw [hwavy]
    exact hx
  have hcontains : u.band.contains p = true ↔ u.band.origin.y ≤ p.y ∧ p.y < u.bandBottom := by
    rw [Bounds.contains_iff]
    exact and_iff_right hcolumns
  obtain ⟨hlow, hhigh⟩ := rows_of_seen hthickness hwavy hseen
  refine ⟨hcontains, fun hhalf => hcontains.mpr (rows_of_half_seen hthickness hwavy hhalf),
    fun habove => coverage_above hthickness habove hseen,
    fun hbelow => coverage_below hthickness hwavy hbelow hseen, ?_, ?_,
    fun ctx hmask => shade_of_covered hwavy hmask hseen ctx⟩
  · rw [Bounds.contains_iff, Bounds.expand]
    rw [bandBottom] at hhigh
    dsimp only
    constructor <;> constructor <;> linarith
  · intro htop hbottom row hrow
    rw [hrow] at hlow hhigh
    rw [hcontains, hrow]
    exact ⟨le_center_of_fract htop hlow, center_lt_of_fract hbottom hhigh⟩

/-! ## A wave at a trough -/

/-- A wave two pixels thick, ten pixels below the top of the frame. -/
def thickWave {α : Type} [Scalar α] : Underline α :=
  ⟨⟨0, .of 0 0 32 32, .of 0 10 20 4⟩, ⟨0, 0, 0, 1⟩, 2, true⟩

theorem band_thickWave : (thickWave : Underline ℝ).band = ⟨⟨0, 17 / 2⟩, ⟨20, 5⟩⟩ := by
  norm_num [thickWave, band, waveAmplitude, Bounds.of]

theorem topAt_trough (y : ℝ) : thickWave.topAt ⟨3 / 2, y⟩ = 3 := by
  have hquarter : 2 * Real.pi * (3 / 2) / 6 = Real.pi / 2 := by ring
  rw [topAt, band_thickWave, sub_zero]
  show 1.5 + 1.5 * Real.sin (2 * Real.pi * (3 / 2) / 6) = (3 : ℝ)
  rw [hquarter, Real.sin_pi_div_two]
  norm_num

/-- A quarter of a pixel below the band. -/
theorem coverageAt_trough : thickWave.coverageAt (⟨3 / 2, 55 / 4⟩ : Point ℝ) = 1 / 4 := by
  have hdistance : |(5 / 4 : ℝ)| = 5 / 4 := abs_of_pos (by norm_num)
  rw [coverageAt_of_thickness_nonneg (zero_le_two : (0 : ℝ) ≤ 2), topAt_trough, band_thickWave]
  show saturate (2 / 2 - |55 / 4 - 17 / 2 - 2 / 2 - 3| + 1 / 2) = (1 / 4 : ℝ)
  norm_num [hdistance, saturate_eq_self]

theorem not_contains_trough : thickWave.band.contains (⟨3 / 2, 55 / 4⟩ : Point ℝ) = false := by
  rw [Bool.eq_false_iff, ne_eq, Bounds.contains_iff, band_thickWave]
  norm_num

/-- The wave covers a quarter of a point below a trough, which its band does not have. -/
theorem wave_cut_at_trough :
    let u : Underline ℝ := thickWave
    let p : Point ℝ := ⟨3 / 2, 55 / 4⟩
    u.wavy = true ∧ 0 ≤ u.thickness
      ∧ (u.bounds.origin.x ≤ p.x ∧ p.x < u.bounds.origin.x + u.bounds.size.width)
      ∧ waveCoverage u.thickness (p.x - u.band.origin.x) (p.y - u.band.origin.y) = 1 / 4
      ∧ u.band.contains p = false := by
  intro u p
  refine ⟨rfl, zero_le_two, ?_, coverageAt_trough, not_contains_trough⟩
  norm_num [u, p, thickWave, Bounds.of]

/-- Nothing is drawn there, and a taller band would have the point. -/
theorem wave_drawn_in_band_below_trough :
    let u : Underline ℝ := thickWave
    let p : Point ℝ := ⟨3 / 2, 55 / 4⟩
    let ctx : FrameContext ℝ := ⟨⟨32, 32⟩, true, 4, false, none⟩
    (u.wavy = true ∧ 0 ≤ u.thickness
        ∧ (u.bounds.origin.x ≤ p.x ∧ p.x < u.bounds.origin.x + u.bounds.size.width)
        ∧ 0 < u.coverageAt p)
      ∧ (u.band.expand 0 (1 / 2)).contains p = true ∧ u.shade p ctx = Rgba.transparent := by
  intro u p ctx
  have hx : u.bounds.origin.x ≤ p.x ∧ p.x < u.bounds.origin.x + u.bounds.size.width := by
    norm_num [u, p, thickWave, Bounds.of]
  have hseen : 0 < u.coverageAt p := by
    rw [coverageAt_trough]
    norm_num
  have hmask : u.contentMask.clips p = false := by
    rw [Bool.eq_false_iff, ne_eq, Bounds.clips_iff]
    norm_num [u, p, thickWave, Bounds.of]
  obtain ⟨-, -, -, -, htaller, -, hshade⟩ := wave_drawn_in_band rfl zero_le_two hx hseen
  rw [not_contains_trough] at hshade
  exact ⟨⟨rfl, zero_le_two, hx, hseen⟩, htaller, hshade ctx hmask⟩

end Underline

end Raster
