import Raster.Scalar

/-!
# Binary floating point

The scalar of a running program: 64-bit floats, written to buffers as
32-bit floats. Taking a float apart (`Binary64.parts?`) gives its exact
value, from which the integer part and the remainder are computed without
rounding.
-/

namespace Raster.Binary64

/-- The exact value of a finite float: `± mantissa * 2 ^ exponent`. -/
structure Parts where
  negative : Bool
  mantissa : Nat
  exponent : Int
  deriving Repr, DecidableEq

namespace Parts

/-- The magnitude in units of `2 ^ e`, rounded down. -/
def inUnits (p : Parts) (e : Int) : Nat :=
  if e ≤ p.exponent then p.mantissa <<< (p.exponent - e).toNat
  else p.mantissa >>> (e - p.exponent).toNat

/-- The integer part, rounded toward zero. -/
def toInt (p : Parts) : Int :=
  if p.negative then -(p.inUnits 0 : Int) else p.inUnits 0

end Parts

/-- The sign bit, and the significand with the weight of its last bit. Not-a-number and the
infinities have no parts. -/
def parts? (x : Float) : Option Parts :=
  let bits : Nat := x.toBits.toNat
  let negative := bits >>> 63 == 1
  let field : Nat := (bits >>> 52) % 2048
  let fraction : Nat := bits % (1 <<< 52)
  if field = 2047 then none
  else if field = 0 then some ⟨negative, fraction, -1074⟩
  else some ⟨negative, fraction + (1 <<< 52), field - 1075⟩

/-- The integer part, rounded toward zero; 0 for what is not finite. -/
def toInt (x : Float) : Int :=
  match parts? x with
  | some p => p.toInt
  | none => 0

/-- The larger of two numbers; not-a-number if either is. -/
def max (x y : Float) : Float :=
  if x.isNaN then x else if y.isNaN then y else if x < y then y else x

/-- The smaller of two numbers; not-a-number if either is. -/
def min (x y : Float) : Float :=
  if x.isNaN then x else if y.isNaN then y else if y < x then y else x

/-- -1 or 1 by the sign; zeros and not-a-number stand for themselves. -/
def sign (x : Float) : Float :=
  if 0 < x then 1 else if x < 0 then -1 else x

/-- The exact remainder of division rounded toward zero, with the sign of the dividend. -/
def rem (x y : Float) : Float :=
  match parts? x, parts? y with
  | some p, some q =>
    if q.mantissa = 0 then 0 / 0
    else
      let e := if p.exponent ≤ q.exponent then p.exponent else q.exponent
      let r := (Float.ofNat (p.inUnits e % q.inUnits e)).scaleB e
      if p.negative then -r else r
  | some _, none => if y.isNaN then y else x
  | none, _ => 0 / 0

/-- The length of `(x, y)`, scaled by the longer side so that no square overflows. An infinite
side makes it infinite, whatever the other is. -/
def hypot (x y : Float) : Float :=
  if x.isInf || y.isInf then 1 / 0
  else
    let longer := max x.abs y.abs
    if longer == 0 then 0
    else
      let u := x / longer
      let v := y / longer
      (u * u + v * v).sqrt * longer

instance : Scalar Float where
  literal _ := inferInstance
  ofNat := Float.ofNat
  decidableLT := inferInstance
  decidableLE := inferInstance
  max := Binary64.max
  min := Binary64.min
  toInt := Binary64.toInt
  abs := Float.abs
  floor := Float.floor
  ceil := Float.ceil
  sign := Binary64.sign
  rem := Binary64.rem
  sqrt := Float.sqrt
  cbrt := Float.cbrt
  exp := Float.exp
  sin := Float.sin
  cos := Float.cos
  pow := Float.pow
  hypot := Binary64.hypot
  pi := 3.141592653589793
  store x := x.toFloat32.toFloat

end Raster.Binary64
