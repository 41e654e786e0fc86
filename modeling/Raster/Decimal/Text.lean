import Raster.Decimal.Shortest

/-!
# Numbers in messages

A number in a message has the fewest digits that read back to it. If it is
at least `10 ^ -6` and less than `10 ^ 21` it is written positionally,
otherwise with a power of ten.
-/

namespace Raster

namespace Decimal

/-- The layout of the digits of a positive decimal. -/
def text (d : Decimal) : String :=
  let digits := d.digits.repr
  let count : Int := digits.length
  let point := count + d.exponent
  let zeros (n : Int) : String := "".pushn '0' n.toNat
  if 0 ≤ d.exponent ∧ point ≤ 21 then digits ++ zeros d.exponent
  else if 0 < point ∧ point ≤ 21 then
    String.ofList (digits.toList.take point.toNat) ++ "."
      ++ String.ofList (digits.toList.drop point.toNat)
  else if -6 < point ∧ point ≤ 0 then "0." ++ zeros (-point) ++ digits
  else
    let power := point - 1
    let mantissa := match digits.toList with
      | [] => ""
      | [c] => String.ofList [c]
      | c :: rest => String.ofList (c :: '.' :: rest)
    mantissa ++ "e" ++ (if 0 ≤ power then "+" else "-") ++ power.natAbs.repr

end Decimal

/-- A number as messages write it; both zeros are `0`. -/
def numberText (x : Float) : String :=
  if x.isNaN then "NaN"
  else match Binary64.parts? x with
  | none => if x < 0 then "-Infinity" else "Infinity"
  | some p =>
    if p.mantissa = 0 then "0"
    else (if p.negative then "-" else "") ++ (Decimal.ofFloat p.mantissa p.exponent).text

end Raster
