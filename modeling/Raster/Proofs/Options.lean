import Raster.Options

/-!
# Checked options

What `Options.resolve` accepts has passed its checks (`Options.Checked`):
a viewport that `checkViewport` accepts, and limits that are positive.
Another viewport that is accepted keeps the options checked.
-/

namespace Raster

/-- A computation that goes through went through its first part. -/
theorem exists_of_bind_eq_ok {ε β γ : Type} {x : Except ε β} {f : β → Except ε γ} {c : γ}
    (h : (x >>= f) = .ok c) : ∃ b, x = .ok b ∧ f b = .ok c := by
  cases x with
  | error e => cases h
  | ok b => exact ⟨b, rfl, h⟩

namespace Options

variable {α : Type} [Scalar α]

structure Checked (options : Options α) : Prop where
  viewport : checkViewport options.viewport = .ok ()
  shadowSamples : 0 < options.shadowSamples
  maxInstances : 0 < options.maxInstances
  maxPathVertices : 0 < options.maxPathVertices

theorem resolveCount_pos {option : CountOption} {default n : Nat} {value : Option α}
    (hdefault : 0 < default) (h : resolveCount option default value = .ok n) : 0 < n := by
  unfold resolveCount at h
  split at h
  · cases h
    exact hdefault
  · split at h
    · cases h
      exact Nat.succ_pos _
    · cases h

theorem checked_of_resolve {input : OptionsInput α} {options : Options α}
    (h : resolve input = .ok options) : options.Checked := by
  obtain ⟨_, hviewport, h⟩ := exists_of_bind_eq_ok h
  obtain ⟨shadowSamples, hshadow, h⟩ := exists_of_bind_eq_ok h
  obtain ⟨maxInstances, hinstances, h⟩ := exists_of_bind_eq_ok h
  obtain ⟨maxPathVertices, hvertices, h⟩ := exists_of_bind_eq_ok h
  cases h
  exact {
    viewport := hviewport
    shadowSamples := resolveCount_pos (by decide) hshadow
    maxInstances := resolveCount_pos (by decide) hinstances
    maxPathVertices := resolveCount_pos (by decide) hvertices }

theorem eq_of_withViewport {options next : Options α} {size : Size α}
    (h : options.withViewport size = .ok next) :
    checkViewport size = .ok () ∧ next = { options with viewport := size } := by
  obtain ⟨_, hsize, h⟩ := exists_of_bind_eq_ok h
  exact ⟨hsize, (Except.ok.inj h).symm⟩

theorem Checked.withViewport {options next : Options α} {size : Size α}
    (hoptions : options.Checked) (h : options.withViewport size = .ok next) : next.Checked := by
  obtain ⟨hsize, rfl⟩ := eq_of_withViewport h
  exact { hoptions with viewport := hsize }

end Options

end Raster
