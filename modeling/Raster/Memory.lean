import Raster.Scalar

/-!
# Room for buffers

A buffer is asked for by its length, and may be refused for two reasons:
no buffer has that length, or there is no room for it. The length is a
natural number (`reserve`), or a number that was worked out and need be
neither whole nor positive (`bufferLength`).

Which lengths are buffers' is a rule of the library (`maxBytes`). How much
room there is depends on the machine, so it is a parameter (`Memory`):
nothing is known about it, and what needs a buffer is stated for all
memories that have room for that buffer.
-/

namespace Raster

/-- The memory of a machine. -/
class Memory where
  /-- Whether there is room for a buffer of so many bytes. -/
  hasRoom : Nat → Bool

/-- Memory in which there is always room. -/
@[reducible] def Memory.unbounded : Memory := ⟨fun _ => true⟩

inductive BufferError (ν : Type) where
  /-- The length is negative, or its bytes are too many to be counted. -/
  | badLength (length : ν)
  | noRoom
  deriving Repr, DecidableEq

def BufferError.map {ν μ : Type} (f : ν → μ) : BufferError ν → BufferError μ
  | badLength length => .badLength (f length)
  | noRoom => .noRoom

/-- The most bytes that a buffer can be said to have: one less than `2 ^ 53`, so that every such
number is one of binary floating point. -/
def maxBytes : Nat := 9007199254740991

variable [Memory]

/-- Asks for a buffer of elements of a size in bytes. -/
def reserve (size length : Nat) : Except (BufferError Nat) Unit :=
  if maxBytes < length * size then .error (.badLength length)
  else if Memory.hasRoom (length * size) then .ok ()
  else .error .noRoom

/-- Asks for a buffer whose length is the integer part of a number; what is not a number asks for
an empty one. -/
def bufferLength {α : Type} [Scalar α] (size : Nat) (length : α) :
    Except (BufferError α) Nat :=
  if length ≤ -1 ∨ Scalar.ofNat (maxBytes / size + 1) ≤ length then .error (.badLength length)
  else
    let whole := (Scalar.toInt length).toNat
    if Memory.hasRoom (whole * size) then .ok whole else .error .noRoom

theorem reserve_eq_ok_iff {size length : Nat} :
    reserve size length = .ok ()
      ↔ length * size ≤ maxBytes ∧ Memory.hasRoom (length * size) = true := by
  unfold reserve
  split
  next hlong => exact iff_of_false nofun fun h => absurd hlong (Nat.not_lt.mpr h.1)
  next hcounted =>
    cases Memory.hasRoom (length * size) with
    | true => exact iff_of_true rfl ⟨Nat.not_lt.mp hcounted, rfl⟩
    | false => exact iff_of_false nofun fun h => nomatch h.2

end Raster
