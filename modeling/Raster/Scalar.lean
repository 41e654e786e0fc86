/-!
# Scalars

Every colour, length and coverage in this library is a number of some
type `α` with the operations of `Scalar`. The class asks for operations
only, no laws. Binary floating point (`Raster.Scalar.Binary64`) and the
real numbers (`Raster.Scalar.Real`) are both instances, so a statement
about real arithmetic speaks of the very definition that runs.

Below the class stand the few derived operations that everything else is
written with: whole numbers (`toInt?`, `natCeil?`), `saturate` and `lerp`.
-/

namespace Raster

/-- Arithmetic, order and elementary functions, without laws.

Comparison is decidable and may fail to be total: with floating point
every comparison with NaN is false, so the branches of an `if` are not
interchangeable. -/
class Scalar (α : Type) extends Add α, Sub α, Mul α, Div α, Neg α, Max α, Min α,
    LT α, LE α, BEq α, OfScientific α where
  literal (n : Nat) : OfNat α n
  ofNat : Nat → α
  decidableLT : DecidableLT α
  decidableLE : DecidableLE α
  /-- The integer part, rounded toward zero; 0 for what is not finite. -/
  toInt : α → Int
  abs : α → α
  floor : α → α
  ceil : α → α
  /-- -1, 0 or 1. -/
  sign : α → α
  /-- Remainder of division rounded toward zero. -/
  rem : α → α → α
  sqrt : α → α
  cbrt : α → α
  exp : α → α
  sin : α → α
  cos : α → α
  pow : α → α → α
  hypot : α → α → α
  pi : α
  /-- What a buffer holds after a number was written to it. -/
  store : α → α

namespace Scalar

variable {α : Type} [Scalar α]

instance (priority := low) instOfNat {n : Nat} : OfNat α n := literal n

instance (priority := low) instDecidableLT : DecidableLT α := decidableLT

instance (priority := low) instDecidableLE : DecidableLE α := decidableLE

def ofInt : Int → α
  | .ofNat n => ofNat n
  | .negSucc n => -ofNat (n + 1)

/-- A number is finite when its difference from itself is zero. -/
def isFinite (x : α) : Bool := x - x == 0

/-- The integer that `x` is, if it is one. -/
def toInt? (x : α) : Option Int :=
  if ofInt (toInt x) == x then some (toInt x) else none

/-- The least natural number that is not below `x`, if there is one. -/
def natCeil? (x : α) : Option Nat :=
  if x ≤ 0 then some 0 else ((toInt? x).or (toInt? (ceil x))).map Int.toNat

end Scalar

section
variable {α : Type} [Scalar α]

/-- Clamps to [0, 1]; a number that compares with nothing becomes 0. -/
def saturate (x : α) : α :=
  if 0 < x then (if 1 < x then 1 else x) else 0

/-- Moves from `a` toward `b` by the fraction `t` of the way. -/
def lerp (a b t : α) : α := a + (b - a) * t

end

end Raster
