import Raster.Scalar.Binary64

/-!
# Shortest decimals

The decimal with the fewest digits that lies in the rounding interval of a
float: the numbers nearer to it than to its neighbours, the two ends
included when the float's last bit is even. Grids of one digit, two digits
and so on are tried in turn; on each only the two neighbours of the value
can qualify, and of two that do the nearer one is taken.

Values and interval ends are fractions of natural numbers, so nothing is
rounded on the way.
-/

namespace Raster

/-- The number `digits * 10 ^ exponent`. -/
structure Decimal where
  digits : Nat
  exponent : Int
  deriving Repr, DecidableEq, Inhabited

namespace Decimal

structure Fraction where
  num : Nat
  den : Nat

namespace Fraction

/-- `m * 2 ^ e`. -/
def ofBinary (m : Nat) (e : Int) : Fraction := ⟨m <<< e.toNat, 1 <<< (-e).toNat⟩

/-- `d * 10 ^ e`. -/
def ofDecimal (d : Nat) (e : Int) : Fraction := ⟨d * Nat.pow 10 e.toNat, Nat.pow 10 (-e).toNat⟩

def lt (x y : Fraction) : Bool := x.num * y.den < y.num * x.den

/-- How many units of `10 ^ e` fit. -/
def inUnits (x : Fraction) (e : Int) : Nat :=
  x.num * Nat.pow 10 (-e).toNat / (x.den * Nat.pow 10 e.toNat)

/-- The decimal exponent of the leading digit of a positive fraction: the digit counts of its two
sides decide it up to one. -/
def leading (x : Fraction) : Int :=
  let most : Int := (Nat.toDigits 10 x.num).length - (Nat.toDigits 10 x.den).length
  if 1 ≤ x.inUnits most then most else most - 1

end Fraction

/-- A value with the interval of numbers that round to it. -/
structure Interval where
  value : Fraction
  low : Fraction
  high : Fraction
  closed : Bool

/-- The rounding interval of the positive float `mantissa * 2 ^ exponent`. Below a power of two
the neighbour is only half as far away. -/
def Interval.ofFloat (mantissa : Nat) (exponent : Int) : Interval where
  value := .ofBinary (4 * mantissa) (exponent - 2)
  low := .ofBinary (4 * mantissa - (if mantissa = 1 <<< 52 ∧ -1074 < exponent then 1 else 2))
    (exponent - 2)
  high := .ofBinary (4 * mantissa + 2) (exponent - 2)
  closed := mantissa % 2 == 0

def Interval.contains (i : Interval) (x : Fraction) : Bool :=
  if i.closed then !x.lt i.low && !i.high.lt x else i.low.lt x && x.lt i.high

/-- The better of the two grid points around the value, if one of them is in the interval. A tie
goes to the even one. -/
def Interval.onGrid? (i : Interval) (e : Int) : Option Decimal :=
  let d := i.value.inUnits e
  let below := i.contains (.ofDecimal d e)
  let above := i.contains (.ofDecimal (d + 1) e)
  let middle := Fraction.ofDecimal (10 * d + 5) (e - 1)
  if below && above then
    if i.value.lt middle then some ⟨d, e⟩
    else if middle.lt i.value then some ⟨d + 1, e⟩
    else some ⟨d + d % 2, e⟩
  else if below then some ⟨d, e⟩
  else if above then some ⟨d + 1, e⟩
  else none

/-- The first grid, from one digit to seventeen, that meets the interval. -/
def Interval.shortest (i : Interval) : Decimal :=
  let first := i.value.leading
  ((List.range 17).findSome? fun (k : Nat) => i.onGrid? (first - k)).getD
    ⟨i.value.inUnits (first - 16), first - 16⟩

/-- Without trailing zeros among the digits. -/
def trim (d : Decimal) : Decimal :=
  if d.digits ≠ 0 ∧ d.digits % 10 = 0 then trim ⟨d.digits / 10, d.exponent + 1⟩ else d
termination_by d.digits
decreasing_by omega

/-- The shortest decimal of the positive float `mantissa * 2 ^ exponent`. -/
def ofFloat (mantissa : Nat) (exponent : Int) : Decimal :=
  (Interval.ofFloat mantissa exponent).shortest.trim

end Decimal

end Raster
