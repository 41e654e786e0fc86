import Raster.Scalar.Real
import Mathlib.LinearAlgebra.Matrix.Notation
import Mathlib.Tactic.NormNum.Abs
import Raster.Color.Oklab

/-!
# Oklab and back

Each direction is a power between two matrices: the cube root of the cones'
answers to a colour on the way in, the cube on the way out
(`Oklab.channels_toOklab`, `Oklab.channels_ofOklab`). The matrices are
published with ten digits, so those of one direction are not quite the
inverses of those of the other. How far they are from that is read off the
residual, the product of two of them less the identity: its row sums bound
what comes back of a vector (`Oklab.RowsAtMost.abs_undo_sub_le`).

Both residuals are tiny (`Oklab.rows_roots_residual`,
`Oklab.rows_cones_residual`). The cube enlarges an error by a factor of four
at most and the last matrix by one of eight, so a colour comes back to
within a few millionths (`Oklab.undo_near`), and alpha as it was.
-/

namespace Raster

namespace Oklab

/-! ## Matrices that nearly undo each other -/

/-- No row of a matrix has absolute values that add up to more than `k`. -/
def RowsAtMost (A : Matrix (Fin 3) (Fin 3) ℝ) (k : ℝ) : Prop := ∀ i, ∑ j, |A i j| ≤ k

namespace RowsAtMost

variable {A B : Matrix (Fin 3) (Fin 3) ℝ} {v : Fin 3 → ℝ} {k δ : ℝ}

theorem abs_mulVec_le (hA : RowsAtMost A k) (hv : ∀ j, |v j| ≤ δ) (i : Fin 3) :
    |A.mulVec v i| ≤ k * δ := by
  have hδ : 0 ≤ δ := (abs_nonneg (v 0)).trans (hv 0)
  calc |A.mulVec v i| = |∑ j, A i j * v j| := rfl
    _ ≤ ∑ j, |A i j * v j| := Finset.abs_sum_le_sum_abs _ _
    _ = ∑ j, |A i j| * |v j| := by simp only [abs_mul]
    _ ≤ ∑ j, |A i j| * δ :=
        Finset.sum_le_sum fun j _ => mul_le_mul_of_nonneg_left (hv j) (abs_nonneg _)
    _ = (∑ j, |A i j|) * δ := (Finset.sum_mul ..).symm
    _ ≤ k * δ := mul_le_mul_of_nonneg_right (hA i) hδ

/-- What is left of a vector after `B` and `A`, by the residual. -/
theorem abs_undo_sub_le (h : RowsAtMost (A * B - 1) k) (hv : ∀ j, |v j| ≤ δ) (i : Fin 3) :
    |A.mulVec (B.mulVec v) i - v i| ≤ k * δ := by
  have hresidual : A.mulVec (B.mulVec v) i - v i = (A * B - 1).mulVec v i := by
    rw [Matrix.sub_mulVec, Matrix.one_mulVec, Matrix.mulVec_mulVec, Pi.sub_apply]
  rw [hresidual]
  exact h.abs_mulVec_le hv i

end RowsAtMost

/-! ## The four matrices -/

/-- From the channels of a colour to the answers of the three kinds of cones. -/
noncomputable def conesOfRgb : Matrix (Fin 3) (Fin 3) ℝ :=
  !![0.4122214708, 0.5363325363, 0.0514459929;
    0.2119034982, 0.6806995451, 0.1073969566;
    0.0883024619, 0.2817188376, 0.6299787005]

/-- From the cube roots of the answers to lightness and the opponent coordinates. -/
noncomputable def labOfRoots : Matrix (Fin 3) (Fin 3) ℝ :=
  !![0.2104542553, 0.793617785, -0.0040720468;
    1.9779984951, -2.428592205, 0.4505937099;
    0.0259040371, 0.7827717662, -0.808675766]

noncomputable def rootsOfLab : Matrix (Fin 3) (Fin 3) ℝ :=
  !![1, 0.3963377774, 0.2158037573;
    1, -0.1055613458, -0.0638541728;
    1, -0.0894841775, -1.291485548]

noncomputable def rgbOfCones : Matrix (Fin 3) (Fin 3) ℝ :=
  !![4.0767416621, -3.3077115913, 0.2309699292;
    -1.2684380046, 2.6097574011, -0.3413193965;
    -0.0041960863, -0.7034186147, 1.707614701]

/-- The channels of a colour without its alpha, or the coordinates in their place. -/
def channels (c : Rgba ℝ) : Fin 3 → ℝ := ![c.r, c.g, c.b]

theorem channels_toOklab (c : Rgba ℝ) :
    channels c.toOklab
      = labOfRoots.mulVec fun i => Scalar.cbrt (conesOfRgb.mulVec (channels c) i) := by
  funext i
  fin_cases i <;>
    simp [channels, Rgba.toOklab, labOfRoots, conesOfRgb, Matrix.mulVec, dotProduct,
      Fin.sum_univ_three] <;> ring

theorem channels_ofOklab (c : Rgba ℝ) :
    channels c.ofOklab = rgbOfCones.mulVec fun i => rootsOfLab.mulVec (channels c) i ^ 3 := by
  funext i
  fin_cases i <;>
    simp [channels, Rgba.ofOklab, rgbOfCones, rootsOfLab, Matrix.mulVec, dotProduct,
      Fin.sum_univ_three] <;> ring

theorem rows_roots_residual : RowsAtMost (rootsOfLab * labOfRoots - 1) 1e-7 := by
  intro i
  fin_cases i <;> simp [rootsOfLab, labOfRoots, Fin.sum_univ_three] <;> norm_num

theorem rows_cones_residual : RowsAtMost (rgbOfCones * conesOfRgb - 1) 1e-9 := by
  intro i
  fin_cases i <;> simp [rgbOfCones, conesOfRgb, Fin.sum_univ_three] <;> norm_num

theorem rows_rgbOfCones : RowsAtMost rgbOfCones 8 := by
  intro i
  fin_cases i <;> simp [rgbOfCones, Fin.sum_univ_three] <;> norm_num

/-- The answers of the cones are means of the channels. -/
theorem cones_mem {v : Fin 3 → ℝ} (hv : ∀ i, v i ∈ Set.Icc (0 : ℝ) 1) (i : Fin 3) :
    conesOfRgb.mulVec v i ∈ Set.Icc (0 : ℝ) 1 := by
  obtain ⟨hr, hr'⟩ := hv 0
  obtain ⟨hg, hg'⟩ := hv 1
  obtain ⟨hb, hb'⟩ := hv 2
  fin_cases i <;>
    simp [conesOfRgb, Matrix.mulVec, dotProduct, Fin.sum_univ_three] <;>
    constructor <;> linarith

/-! ## Cubes and cube roots -/

theorem cbrt_mem {x : ℝ} (hx : x ∈ Set.Icc (0 : ℝ) 1) : Scalar.cbrt x ∈ Set.Icc (0 : ℝ) 1 := by
  have hroot : Scalar.cbrt x = x ^ (1 / 3 : ℝ) := if_pos hx.1
  rw [hroot]
  exact ⟨Real.rpow_nonneg hx.1 _, Real.rpow_le_one hx.1 hx.2 (by norm_num)⟩

theorem cbrt_cube {x : ℝ} (hx : 0 ≤ x) : Scalar.cbrt x ^ 3 = x := by
  have hroot : Scalar.cbrt x = x ^ ((3 : ℕ) : ℝ)⁻¹ := by
    rw [show ((3 : ℕ) : ℝ)⁻¹ = 1 / 3 by norm_num]
    exact if_pos hx
  rw [hroot, Real.rpow_inv_natCast_pow hx (by decide)]

/-- Close to the unit interval the slope of the cube is less than four. -/
theorem abs_cube_sub_le {x y δ : ℝ} (hx : x ∈ Set.Icc (0 : ℝ) 1) (hδ : δ ≤ 1 / 10)
    (hy : |y - x| ≤ δ) : |y ^ 3 - x ^ 3| ≤ 4 * δ := by
  obtain ⟨hlow, hhigh⟩ := abs_le.mp (hy.trans hδ)
  obtain ⟨hx, hx'⟩ := hx
  have hslope : |y ^ 2 + y * x + x ^ 2| ≤ 4 := by
    rw [abs_le]
    constructor <;> nlinarith
  calc |y ^ 3 - x ^ 3| = |y ^ 2 + y * x + x ^ 2| * |y - x| := by
        rw [← abs_mul]
        ring_nf
    _ ≤ 4 * δ := mul_le_mul hslope hy (abs_nonneg _) (by norm_num)

/-! ## There and back -/

theorem undo_near {c : Rgba ℝ} (hc : ∀ i, channels c i ∈ Set.Icc (0 : ℝ) 1) (i : Fin 3) :
    |channels c.toOklab.ofOklab i - channels c i| ≤ 4e-6 := by
  have habs {x : ℝ} (hx : x ∈ Set.Icc (0 : ℝ) 1) : |x| ≤ 1 := by
    rw [abs_of_nonneg hx.1]
    exact hx.2
  let cones := conesOfRgb.mulVec (channels c)
  let roots : Fin 3 → ℝ := fun j => Scalar.cbrt (cones j)
  let back := rootsOfLab.mulVec (labOfRoots.mulVec roots)
  have hcones (j : Fin 3) : cones j ∈ Set.Icc (0 : ℝ) 1 := cones_mem hc j
  have hroots (j : Fin 3) : roots j ∈ Set.Icc (0 : ℝ) 1 := cbrt_mem (hcones j)
  have hback (j : Fin 3) : |back j - roots j| ≤ 1e-7 * 1 :=
    rows_roots_residual.abs_undo_sub_le (fun l => habs (hroots l)) j
  have hcubes (j : Fin 3) : |back j ^ 3 - cones j| ≤ 4 * (1e-7 * 1) := by
    have hcube := abs_cube_sub_le (hroots j) (by norm_num) (hback j)
    rwa [cbrt_cube (hcones j).1] at hcube
  have hcolor := rows_cones_residual.abs_undo_sub_le (fun l => habs (hc l)) i
  have hspread := rows_rgbOfCones.abs_mulVec_le hcubes i
  have hresult : channels c.toOklab.ofOklab i - channels c i
      = rgbOfCones.mulVec (fun j => back j ^ 3 - cones j) i
        + (rgbOfCones.mulVec cones i - channels c i) := by
    have hsub : (fun j => back j ^ 3 - cones j) = (fun j => back j ^ 3) - cones := rfl
    rw [channels_ofOklab, channels_toOklab, hsub, Matrix.mulVec_sub, Pi.sub_apply]
    ring
  calc |channels c.toOklab.ofOklab i - channels c i|
      ≤ |rgbOfCones.mulVec (fun j => back j ^ 3 - cones j) i|
          + |rgbOfCones.mulVec cones i - channels c i| := by
        rw [hresult]
        exact abs_add_le _ _
    _ ≤ 8 * (4 * (1e-7 * 1)) + 1e-9 * 1 := add_le_add hspread hcolor
    _ ≤ 4e-6 := by norm_num

end Oklab

/-- A colour whose channels are between 0 and 1 comes back from Oklab with each of them less than a
ten-thousandth away, and with its alpha. -/
theorem Rgba.oklab_round_trip {c : Rgba ℝ} (hr : c.r ∈ Set.Icc (0 : ℝ) 1)
    (hg : c.g ∈ Set.Icc (0 : ℝ) 1) (hb : c.b ∈ Set.Icc (0 : ℝ) 1) :
    (|c.toOklab.ofOklab.r - c.r| < 1e-4 ∧ |c.toOklab.ofOklab.g - c.g| < 1e-4
        ∧ |c.toOklab.ofOklab.b - c.b| < 1e-4)
      ∧ c.toOklab.ofOklab.a = c.a := by
  have hc (i : Fin 3) : Oklab.channels c i ∈ Set.Icc (0 : ℝ) 1 := by
    fin_cases i
    · exact hr
    · exact hg
    · exact hb
  have hnear (i : Fin 3) : |Oklab.channels c.toOklab.ofOklab i - Oklab.channels c i| < 1e-4 :=
    (Oklab.undo_near hc i).trans_lt (by norm_num)
  exact ⟨⟨hnear 0, hnear 1, hnear 2⟩, rfl⟩

/-- A half transparent orange, whose red is at one end of the interval and blue at the other. -/
theorem Rgba.oklab_round_trip_orange :
    let c : Rgba ℝ := ⟨1, 3 / 8, 0, 1 / 2⟩
    (c.r ∈ Set.Icc (0 : ℝ) 1 ∧ c.g ∈ Set.Icc (0 : ℝ) 1 ∧ c.b ∈ Set.Icc (0 : ℝ) 1)
      ∧ (|c.toOklab.ofOklab.r - 1| < 1e-4 ∧ |c.toOklab.ofOklab.g - 3 / 8| < 1e-4
        ∧ |c.toOklab.ofOklab.b - 0| < 1e-4)
      ∧ c.toOklab.ofOklab.a = 1 / 2 := by
  intro c
  have hr : c.r ∈ Set.Icc (0 : ℝ) 1 := ⟨zero_le_one, le_rfl⟩
  have hg : c.g ∈ Set.Icc (0 : ℝ) 1 := by
    show (3 / 8 : ℝ) ∈ Set.Icc (0 : ℝ) 1
    constructor <;> norm_num
  have hb : c.b ∈ Set.Icc (0 : ℝ) 1 := ⟨le_rfl, zero_le_one⟩
  exact ⟨⟨hr, hg, hb⟩, Rgba.oklab_round_trip hr hg hb⟩

end Raster
