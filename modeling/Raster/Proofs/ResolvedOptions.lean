import Raster.Proofs.Options
import Raster.Proofs.WholeNumbers

/-!
# Resolving options

`Options.resolve` accepts what is `OptionsInput.Acceptable` and nothing
else: extents that are finite and not negative, and counts that are left out
or positive whole numbers (`Options.exists_resolve_iff_acceptable`). What it
gives can be stated again, each count as a number (`Options.toInput`), and
resolving that changes nothing (`Options.Resolved.resolve_toInput`). So to
change the viewport alone is to resolve options in which only the viewport
is another (`Options.Resolved.resolve_withViewport`).

A count is a number of the scalar type first, a natural number afterwards
and a number again when it is restated. That it comes back takes three laws
(`Scalar.Counts`), which binary floating point has (`Binary64.counts`).
-/

namespace Raster

/-! ## Numbers that count -/

/-- What restating a count asks of the arithmetic. -/
structure Scalar.Counts (α : Type) [Scalar α] : Prop where
  /-- Equal numbers have one integer part. -/
  toInt_congr : ∀ {x y : α}, (x == y) = true → toInt x = toInt y
  /-- A number that is equal to another is equal to itself. -/
  beq_self : ∀ {x y : α}, (x == y) = true → (x == x) = true
  /-- The default counts are whole. -/
  toInt?_default : ∀ n ∈ [4, 4096, 65536], toInt? (ofNat n : α) = some (n : Int)

namespace Binary64

open Float.Model Float.Model.UnpackedFloat

theorem sub_self_unpacked (u : UnpackedFloat) :
    UnpackedFloat.sub Format.binary64 u u
      = if u.isFinite then .zero .positive else .notANumber := by
  cases u with
  | infinity s => cases s <;> rfl
  | notANumber => rfl
  | zero s => cases s <;> rfl
  | finite s m e h =>
    simp only [UnpackedFloat.sub, sub_self]
    rfl

/-- The difference of a float from itself is zero for the finite ones, and not a number for the
others. -/
theorem isFinite_eq (x : Float) : Scalar.isFinite x = x.isFinite := by
  have hsub : x - x = .ofModel (Float.Model.pack
      (UnpackedFloat.sub Format.binary64 x.toModel.unpack x.toModel.unpack)) := rfl
  have hzero : (Float.ofModel (Float.Model.pack (.zero .positive)) == 0) = true := rfl
  have hnan : (Float.ofModel (Float.Model.pack .notANumber) == 0) = false := rfl
  show (x - x == 0) = x.toModel.unpack.isFinite
  rw [hsub, sub_self_unpacked]
  cases x.toModel.unpack.isFinite with
  | true => exact hzero
  | false => exact hnan

/-- Equal floats are the same float, or the two zeros. -/
theorem toInt_congr {x y : Float} (h : (x == y) = true) : toInt x = toInt y := by
  have hzeros : toInt 0 = toInt (-0) := by decide +kernel
  rcases (Float.beq_iff_ne_nan_and_eq.mp h).2.2 with rfl | ⟨rfl, rfl⟩ | ⟨rfl, rfl⟩
  · rfl
  · exact hzeros
  · exact hzeros.symm

theorem counts : Scalar.Counts Float where
  toInt_congr h := toInt_congr h
  beq_self h := Float.beq_self_iff.mpr (Float.beq_iff_ne_nan_and_eq.mp h).1
  toInt?_default n hn := by
    have hsmall : n < 2 ^ 53 := by
      simp only [List.mem_cons, List.not_mem_nil, or_false] at hn
      omega
    have hint : Scalar.toInt (Float.ofNat n) = n := toInt_ofNat hsmall
    have hself : (Float.ofNat n == Float.ofNat n) = true := by
      rw [ofNat_beq hsmall hsmall, decide_eq_true rfl]
    show Scalar.toInt? (Float.ofNat n) = some (n : Int)
    rw [Scalar.toInt?, hint]
    exact if_pos hself

end Binary64

variable {α : Type} [Scalar α]

theorem Scalar.eq_of_toInt? {x : α} {n : Int} (h : toInt? x = some n) :
    toInt x = n ∧ (ofInt n == x) = true := by
  unfold toInt? at h
  split at h
  next hwhole =>
    cases h
    exact ⟨rfl, hwhole⟩
  · cases h

/-- The integer that a number is, as a number again. -/
theorem Scalar.Counts.toInt?_ofInt (hα : Counts α) {x : α} {n : Int} (h : toInt? x = some n) :
    toInt? (ofInt n : α) = some n := by
  obtain ⟨hint, hequal⟩ := eq_of_toInt? h
  rw [toInt?, hα.toInt_congr hequal, hint, if_pos (hα.beq_self hequal)]

/-! ## What is accepted -/

/-- A count that is left out, or a positive whole number. -/
def CountOption.Accepts (value : Option α) : Prop :=
  ∀ x, value = some x → ∃ n : Nat, 0 < n ∧ Scalar.toInt? x = some (n : Int)

/-- Options with extents that are finite and not negative, and with counts that are positive whole
numbers. -/
structure OptionsInput.Acceptable (input : OptionsInput Float) : Prop where
  width : input.viewport.width.isFinite = true ∧ ¬ input.viewport.width < 0
  height : input.viewport.height.isFinite = true ∧ ¬ input.viewport.height < 0
  shadowSamples : CountOption.Accepts input.shadowSamples
  maxInstances : CountOption.Accepts input.maxInstances
  maxPathVertices : CountOption.Accepts input.maxPathVertices

namespace Options

theorem checkExtent_iff {side : ViewportSide} {value : α} :
    checkExtent side value = .ok () ↔ Scalar.isFinite value = true ∧ ¬ value < 0 := by
  have htest : (Scalar.isFinite value && !decide (value < 0)) = true
      ↔ Scalar.isFinite value = true ∧ ¬ value < 0 := by simp
  rw [← htest, checkExtent]
  split
  next hpassed => exact ⟨fun _ => hpassed, fun _ => rfl⟩
  next hfailed => exact ⟨fun h => (nomatch h), fun h => absurd h hfailed⟩

theorem checkViewport_iff {size : Size α} :
    checkViewport size = .ok ()
      ↔ checkExtent .width size.width = .ok () ∧ checkExtent .height size.height = .ok () := by
  constructor
  · intro h
    obtain ⟨_, hwidth, hheight⟩ := exists_of_bind_eq_ok h
    exact ⟨hwidth, hheight⟩
  · rintro ⟨hwidth, hheight⟩
    rw [checkViewport, hwidth]
    exact hheight

/-- A count that is accepted, is a positive whole number: its own or the default. -/
theorem resolveCount_eq_ok {option : CountOption} {default n : Nat} {value : Option α}
    (h : resolveCount option default value = .ok n) :
    (value = none ∧ n = default)
      ∨ ∃ x, value = some x ∧ 0 < n ∧ Scalar.toInt? x = some (n : Int) := by
  unfold resolveCount at h
  split at h
  · cases h
    exact .inl ⟨rfl, rfl⟩
  next x =>
    split at h
    next k hx =>
      cases h
      exact .inr ⟨x, rfl, Nat.succ_pos k, hx⟩
    · cases h

theorem resolveCount_of_toInt? {option : CountOption} {default n : Nat} {x : α} (hn : 0 < n)
    (hx : Scalar.toInt? x = some (n : Int)) : resolveCount option default (some x) = .ok n := by
  obtain ⟨k, rfl⟩ := Nat.exists_eq_succ_of_ne_zero hn.ne'
  rw [resolveCount, hx]

theorem exists_resolveCount_iff (option : CountOption) (default : Nat) {value : Option α} :
    (∃ n, resolveCount option default value = .ok n) ↔ CountOption.Accepts value := by
  constructor
  · rintro ⟨n, h⟩ x rfl
    rcases resolveCount_eq_ok h with ⟨habsurd, -⟩ | ⟨y, hy, hn, hwhole⟩
    · cases habsurd
    · cases hy
      exact ⟨n, hn, hwhole⟩
  · intro h
    cases value with
    | none => exact ⟨default, rfl⟩
    | some x =>
      obtain ⟨n, hn, hwhole⟩ := h x rfl
      exact ⟨n, resolveCount_of_toInt? hn hwhole⟩

/-- Nothing is accepted but what passes each of the checks. -/
theorem exists_resolve_iff {input : OptionsInput α} :
    (∃ options, resolve input = .ok options)
      ↔ checkViewport input.viewport = .ok () ∧ CountOption.Accepts input.shadowSamples
        ∧ CountOption.Accepts input.maxInstances ∧ CountOption.Accepts input.maxPathVertices := by
  constructor
  · rintro ⟨options, h⟩
    obtain ⟨_, hviewport, h⟩ := exists_of_bind_eq_ok h
    obtain ⟨shadowSamples, hshadow, h⟩ := exists_of_bind_eq_ok h
    obtain ⟨maxInstances, hinstances, h⟩ := exists_of_bind_eq_ok h
    obtain ⟨maxPathVertices, hvertices, -⟩ := exists_of_bind_eq_ok h
    refine ⟨hviewport, ?_, ?_, ?_⟩
    · exact (exists_resolveCount_iff _ _).mp ⟨_, hshadow⟩
    · exact (exists_resolveCount_iff _ _).mp ⟨_, hinstances⟩
    · exact (exists_resolveCount_iff _ _).mp ⟨_, hvertices⟩
  · rintro ⟨hviewport, hshadow, hinstances, hvertices⟩
    obtain ⟨shadowSamples, hshadow⟩ := (exists_resolveCount_iff .shadowSamples 4).mpr hshadow
    obtain ⟨maxInstances, hinstances⟩ :=
      (exists_resolveCount_iff .maxInstances 4096).mpr hinstances
    obtain ⟨maxPathVertices, hvertices⟩ :=
      (exists_resolveCount_iff .maxPathVertices 65536).mpr hvertices
    rw [resolve, hviewport, hshadow, hinstances, hvertices]
    exact ⟨_, rfl⟩

/-- In binary floating point, what is accepted are finite extents that are not negative, and
positive whole counts. -/
theorem exists_resolve_iff_acceptable {input : OptionsInput Float} :
    (∃ options, resolve input = .ok options) ↔ input.Acceptable := by
  rw [exists_resolve_iff, checkViewport_iff, checkExtent_iff, checkExtent_iff,
    Binary64.isFinite_eq, Binary64.isFinite_eq]
  constructor
  · rintro ⟨⟨hwidth, hheight⟩, hshadow, hinstances, hvertices⟩
    exact ⟨hwidth, hheight, hshadow, hinstances, hvertices⟩
  · rintro ⟨hwidth, hheight, hshadow, hinstances, hvertices⟩
    exact ⟨⟨hwidth, hheight⟩, hshadow, hinstances, hvertices⟩

/-! ## Stating options again -/

/-- Options as a caller would state them, with nothing left out. -/
def toInput (options : Options α) : OptionsInput α where
  viewport := options.viewport
  premultipliedAlpha := some options.premultipliedAlpha
  shadowSamples := some (Scalar.ofNat options.shadowSamples)
  roundSpriteCorners := some options.roundSpriteCorners
  clearColor := some options.clearColor
  maxInstances := some (Scalar.ofNat options.maxInstances)
  maxPathVertices := some (Scalar.ofNat options.maxPathVertices)
  debug := some options.debug

/-- Checked options whose counts are whole as numbers. -/
structure Resolved (options : Options α) : Prop extends options.Checked where
  toInt?_shadowSamples :
    Scalar.toInt? (Scalar.ofNat options.shadowSamples : α) = some (options.shadowSamples : Int)
  toInt?_maxInstances :
    Scalar.toInt? (Scalar.ofNat options.maxInstances : α) = some (options.maxInstances : Int)
  toInt?_maxPathVertices :
    Scalar.toInt? (Scalar.ofNat options.maxPathVertices : α) = some (options.maxPathVertices : Int)

theorem toInt?_of_resolveCount (hα : Scalar.Counts α) {option : CountOption} {default n : Nat}
    {value : Option α} (hdefault : default ∈ [4, 4096, 65536])
    (h : resolveCount option default value = .ok n) :
    Scalar.toInt? (Scalar.ofNat n : α) = some (n : Int) := by
  rcases resolveCount_eq_ok h with ⟨-, rfl⟩ | ⟨x, -, -, hx⟩
  · exact hα.toInt?_default _ hdefault
  · exact hα.toInt?_ofInt hx

theorem resolved_of_resolve (hα : Scalar.Counts α) {input : OptionsInput α} {options : Options α}
    (h : resolve input = .ok options) : options.Resolved := by
  have hchecked := checked_of_resolve h
  obtain ⟨_, -, h⟩ := exists_of_bind_eq_ok h
  obtain ⟨shadowSamples, hshadow, h⟩ := exists_of_bind_eq_ok h
  obtain ⟨maxInstances, hinstances, h⟩ := exists_of_bind_eq_ok h
  obtain ⟨maxPathVertices, hvertices, h⟩ := exists_of_bind_eq_ok h
  cases h
  exact {
    hchecked with
    toInt?_shadowSamples := toInt?_of_resolveCount hα (by simp) hshadow
    toInt?_maxInstances := toInt?_of_resolveCount hα (by simp) hinstances
    toInt?_maxPathVertices := toInt?_of_resolveCount hα (by simp) hvertices }

namespace Resolved

variable {options : Options α}

theorem withViewport (h : options.Resolved) {next : Options α} {size : Size α}
    (hnext : options.withViewport size = .ok next) : next.Resolved := by
  have hchecked := h.toChecked.withViewport hnext
  obtain ⟨-, rfl⟩ := eq_of_withViewport hnext
  exact { h with toChecked := hchecked }

/-- Resolved options that are stated again with another viewport. -/
theorem resolve_withViewport (h : options.Resolved) (size : Size α) :
    resolve { options.toInput with viewport := size } = options.withViewport size := by
  rw [resolve, Options.withViewport]
  dsimp only [toInput]
  rw [resolveCount_of_toInt? h.shadowSamples h.toInt?_shadowSamples,
    resolveCount_of_toInt? h.maxInstances h.toInt?_maxInstances,
    resolveCount_of_toInt? h.maxPathVertices h.toInt?_maxPathVertices]
  rfl

/-- Resolving is idempotent on its results. -/
theorem resolve_toInput (h : options.Resolved) : resolve options.toInput = .ok options := by
  have hagain := h.resolve_withViewport options.viewport
  rw [Options.withViewport, h.viewport] at hagain
  exact hagain

end Resolved

end Options

end Raster
