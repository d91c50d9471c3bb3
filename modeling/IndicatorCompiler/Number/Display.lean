import IndicatorCompiler.Number.Shortest
import IndicatorCompiler.Text.Lines

/-!
# Written numbers

Three ways to write a number, all from its shortest digits.  `plain` never uses an exponent and
writes integral values without a fraction.  `marked` shows that the value is not an integer:
integral values end in `.0`, and very large or very small values have an exponent.  `literal` is
`plain` with the names that a script has for infinities.
-/

namespace IndicatorCompiler.Number

open Text (repeated)

namespace Digits

/-- The value is integral. -/
def integral (d : Digits) : Bool := decide ((d.digits.length : Int) ≤ d.point)

/-- The digits around a point, without an exponent. -/
def positional (d : Digits) : String :=
  if d.digits.isEmpty then "0"
  else if d.point ≤ 0 then
    "0." ++ repeated '0' (-d.point).toNat ++ String.ofList d.digits
  else if d.integral then
    String.ofList d.digits ++ repeated '0' (d.point.toNat - d.digits.length)
  else
    String.ofList (d.digits.take d.point.toNat) ++ "." ++
      String.ofList (d.digits.drop d.point.toNat)

/-- One digit, a point if more follow, and the power of ten. -/
def scientific (d : Digits) : String :=
  let fraction := d.digits.drop 1
  String.ofList (d.digits.take 1) ++
    (if fraction.isEmpty then "" else "." ++ String.ofList fraction) ++
    "e" ++ toString (d.point - 1)

end Digits

namespace Double

/-- A minus sign in front of what is negative. -/
def signed (negative : Bool) (text : String) : String := if negative then "-" ++ text else text

/-- Digits only: `5`, `0.0000001`, `inf`. -/
def plain : Double → String
  | finite negative x => signed negative x.digits.positional
  | infinite negative => signed negative "inf"
  | nan => "NaN"

/-- With a mark of being a float: `5.0`, `1e-7`, `1e16`. -/
def marked : Double → String
  | finite negative x =>
    let d := x.digits
    let text :=
      if !d.digits.isEmpty && (decide (16 < d.point) || decide (d.point ≤ -4)) then d.scientific
      else if d.integral then d.positional ++ ".0"
      else d.positional
    signed negative text
  | infinite negative => signed negative "inf"
  | nan => "NaN"

/-- As a script writes it: `5`, `Infinity`. -/
def literal : Double → String
  | infinite negative => signed negative "Infinity"
  | x => x.plain

end Double

end IndicatorCompiler.Number
