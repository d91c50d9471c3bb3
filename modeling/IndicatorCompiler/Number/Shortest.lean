import IndicatorCompiler.Number.Decimal

/-!
# Shortest digits

A finite value is written with the fewest decimal digits that read back as it.  Of two candidates
with that many digits the nearer one is taken, and the upper one if both are equally near.
-/

namespace IndicatorCompiler.Number

/-- Decimal digits `0.d₁d₂…` times `10^point`, without trailing zeros; no digits for zero. -/
structure Digits where
  digits : List Char
  point : Int
  deriving DecidableEq, Repr

/-- The digits of a decimal without trailing zeros. -/
def Decimal.toDigits (d : Decimal) : Digits :=
  if d.coefficient = 0 then ⟨[], 0⟩
  else
    let all := Nat.toDigits 10 d.coefficient
    ⟨(all.reverse.dropWhile (· = '0')).reverse, d.exponent + all.length⟩

namespace Magnitude

/-- The magnitude as an exact decimal. -/
def exact (x : Magnitude) : Decimal := ⟨x.units * 5 ^ 1074, -1074⟩

/-- The number of digits before the point; not positive if zeros follow the point. -/
def leading (x : Magnitude) : Int :=
  let unit := 2 ^ 1074
  if unit ≤ x.units then Decimal.digitCount (x.units / unit)
  else 1 - (Decimal.digitCount ((unit - 1) / x.units) : Int)

/-- `d` reads back as `x`. -/
def readsBack (x : Magnitude) (d : Decimal) : Bool :=
  Double.ofDecimal false d == .finite false x

/-- The best decimal on the grid `10^power`, if one of the two neighbours of the value reads
back. -/
def onGrid (x : Magnitude) (power : Int) : Option Decimal :=
  let numerator := if power < 0 then x.units * 10 ^ (-power).toNat else x.units
  let denominator := if power < 0 then 2 ^ 1074 else 2 ^ 1074 * 10 ^ power.toNat
  let lower : Decimal := ⟨numerator / denominator, power⟩
  let upper : Decimal := ⟨numerator / denominator + 1, power⟩
  let nearerUp := decide (denominator ≤ 2 * (numerator % denominator))
  match x.readsBack lower, x.readsBack upper with
  | true, true => some (if nearerUp then upper else lower)
  | true, false => some lower
  | false, true => some upper
  | false, false => none

/-- The decimal with the fewest digits that reads back. -/
def shortest (x : Magnitude) : Decimal :=
  let leading := x.leading
  ((List.range 17).findSome? fun n => x.onGrid (leading - (n + 1 : Nat))).getD x.exact

/-- The fewest digits that read back as the magnitude. -/
def digits (x : Magnitude) : Digits :=
  if x.mantissa = 0 then ⟨[], 0⟩ else x.shortest.toDigits

end Magnitude

end IndicatorCompiler.Number
