import Raster.Scalar.Real
import Raster.Color.Transfer

/-!
# Hue, saturation, lightness in exact arithmetic

A style colour of a given lightness and chroma has encoded channels between
the smallest value, `Hsla.base`, and the largest, which is higher by the
chroma (`Hsla.toSrgb_mem`). With saturation and lightness from 0 to 1 both
ends are in the interval from 0 to 1, whatever the hue
(`Hsla.base_nonneg`, `Hsla.base_add_chroma_le_one`).
-/

namespace Raster

theorem wrapHue_eq_fract (h : ℝ) : wrapHue h = Int.fract h :=
  if_neg (not_le.mpr (Int.fract_lt_one h))

theorem wrapHue_mem (h : ℝ) : wrapHue h ∈ Set.Ico (0 : ℝ) 1 := by
  rw [wrapHue_eq_fract]
  exact ⟨Int.fract_nonneg h, Int.fract_lt_one h⟩

theorem Scalar.rem_two_mem {x : ℝ} (hx : 0 ≤ x) : Scalar.rem x 2 ∈ Set.Ico (0 : ℝ) 2 := by
  have hrem : Scalar.rem x 2 = 2 * Int.fract (x / 2) := by
    have hfloor : truncate (x / 2) = ⌊x / 2⌋ := if_pos (by positivity)
    show x - 2 * (truncate (x / 2) : ℝ) = _
    rw [hfloor, Int.fract]
    ring
  have hlow := Int.fract_nonneg (x / 2)
  have hhigh := Int.fract_lt_one (x / 2)
  rw [hrem]
  constructor <;> linarith

namespace Hsla

section
variable {α : Type} [Scalar α]

/-- The distance between the largest and the smallest encoded channel. -/
def chroma (c : Hsla α) : α := (1 - Scalar.abs (2 * c.l - 1)) * c.s

/-- The smallest encoded channel. -/
def base (c : Hsla α) : α := c.l - c.chroma / 2

theorem alpha_toSrgb (c : Hsla α) : c.toSrgb.a = c.a := by
  unfold toSrgb
  dsimp only
  split_ifs <;> rfl

theorem alpha_toLinear (c : Hsla α) : c.toLinear.a = c.a := c.alpha_toSrgb

end

/-- Each channel is the smallest value, the largest, or one between. -/
theorem toSrgb_mem {c : Hsla ℝ} (hchroma : 0 ≤ c.chroma) :
    c.toSrgb.r ∈ Set.Icc c.base (c.base + c.chroma)
      ∧ c.toSrgb.g ∈ Set.Icc c.base (c.base + c.chroma)
      ∧ c.toSrgb.b ∈ Set.Icc c.base (c.base + c.chroma) := by
  have hhue : 0 ≤ wrapHue c.h * 6 := mul_nonneg (wrapHue_mem c.h).1 (by norm_num)
  obtain ⟨hrem, hrem'⟩ := Scalar.rem_two_mem hhue
  have hfraction : 1 - |Scalar.rem (wrapHue c.h * 6) 2 - 1| ∈ Set.Icc (0 : ℝ) 1 := by
    have hdistance : |Scalar.rem (wrapHue c.h * 6) 2 - 1| ≤ 1 :=
      abs_le.mpr ⟨by linarith, by linarith⟩
    exact ⟨by linarith, by linarith [abs_nonneg (Scalar.rem (wrapHue c.h * 6) 2 - 1)]⟩
  have hlow : c.base ∈ Set.Icc c.base (c.base + c.chroma) := ⟨le_refl _, by linarith⟩
  have hhigh : c.base + c.chroma ∈ Set.Icc c.base (c.base + c.chroma) := ⟨by linarith, le_refl _⟩
  have hbetween : c.base + c.chroma * (1 - |Scalar.rem (wrapHue c.h * 6) 2 - 1|)
      ∈ Set.Icc c.base (c.base + c.chroma) :=
    ⟨by linarith [mul_nonneg hchroma hfraction.1],
      by linarith [mul_le_of_le_one_right hchroma hfraction.2]⟩
  unfold toSrgb
  dsimp only
  split_ifs
  · exact ⟨hhigh, hbetween, hlow⟩
  · exact ⟨hbetween, hhigh, hlow⟩
  · exact ⟨hlow, hhigh, hbetween⟩
  · exact ⟨hlow, hbetween, hhigh⟩
  · exact ⟨hbetween, hlow, hhigh⟩
  · exact ⟨hhigh, hlow, hbetween⟩

section
variable {c : Hsla ℝ} (hs : c.s ∈ Set.Icc (0 : ℝ) 1) (hl : c.l ∈ Set.Icc (0 : ℝ) 1)
include hs hl

theorem chroma_nonneg : 0 ≤ c.chroma := by
  have hdistance : |2 * c.l - 1| ≤ 1 := abs_le.mpr ⟨by linarith [hl.1], by linarith [hl.2]⟩
  exact mul_nonneg (sub_nonneg.mpr hdistance) hs.1

theorem chroma_le : c.chroma ≤ 1 - |2 * c.l - 1| := by
  have hdistance : |2 * c.l - 1| ≤ 1 := abs_le.mpr ⟨by linarith [hl.1], by linarith [hl.2]⟩
  exact mul_le_of_le_one_right (sub_nonneg.mpr hdistance) hs.2

/-- The smallest channel is not negative. -/
theorem base_nonneg : 0 ≤ c.base := by
  have hlight := neg_le_abs (2 * c.l - 1)
  have hchroma := chroma_le hs hl
  unfold base
  linarith

/-- The largest channel is at most 1. -/
theorem base_add_chroma_le_one : c.base + c.chroma ≤ 1 := by
  have hlight := le_abs_self (2 * c.l - 1)
  have hchroma := chroma_le hs hl
  unfold base
  linarith

end

end Hsla

end Raster
