import IndicatorCompiler.Number.Double

/-!
# Decimal text

A decimal literal is digits with an optional point among or around them and an optional power of
ten.  `lexeme` finds the longest one at the head of a text, `Decimal.ofText?` reads one, and
`Double.ofDecimal` gives the binary64 value nearest to it.
-/

namespace IndicatorCompiler.Number

/-- The number `coefficient · 10^exponent`. -/
structure Decimal where
  coefficient : Nat
  exponent : Int
  deriving DecidableEq, Repr

/-- The value of a digit character. -/
def digitValue (c : Char) : Nat := c.toNat - '0'.toNat

/-- The natural number written by digits. -/
def naturalOf (digits : List Char) : Nat := digits.foldl (fun n c => 10 * n + digitValue c) 0

/-- The digits at the head of a text. -/
def digitsOf (text : List Char) : List Char := text.takeWhile Char.isDigit

/-- `[0-9]+` with an optional point and more digits, or a point and at least one digit. -/
def significandLexeme (text : List Char) : List Char :=
  match digitsOf text with
  | [] =>
    match text with
    | '.' :: rest => match digitsOf rest with
      | [] => []
      | fraction => '.' :: fraction
    | _ => []
  | whole =>
    match text.drop whole.length with
    | '.' :: rest => whole ++ '.' :: digitsOf rest
    | _ => whole

/-- The power of ten at the head of a text: `e` or `E`, an optional sign, digits. -/
def exponentLexeme : List Char → List Char
  | e :: sign :: rest =>
    if e = 'e' ∨ e = 'E' then
      if sign = '+' ∨ sign = '-' then
        match digitsOf rest with
        | [] => []
        | digits => e :: sign :: digits
      else
        match digitsOf (sign :: rest) with
        | [] => []
        | digits => e :: digits
    else []
  | _ => []

/-- The longest decimal literal at the head of a text, empty if there is none. -/
def lexeme (text : List Char) : List Char :=
  match significandLexeme text with
  | [] => []
  | significand => significand ++ exponentLexeme (text.drop significand.length)

namespace Decimal

/-- The power of ten of a literal: nothing, or a mark, an optional sign and digits. -/
def exponentOf? : List Char → Option Int
  | [] => some 0
  | e :: rest =>
    if e = 'e' ∨ e = 'E' then
      let (negative, digits) := match rest with
        | '+' :: digits => (false, digits)
        | '-' :: digits => (true, digits)
        | digits => (false, digits)
      if digits.isEmpty || !digits.all Char.isDigit then none
      else some (if negative then -(naturalOf digits : Int) else naturalOf digits)
    else none

/-- Read an unsigned decimal; at least one digit stands before or after the point. -/
def ofText? (text : List Char) : Option Decimal :=
  let whole := digitsOf text
  let afterWhole := text.drop whole.length
  let (fraction, afterFraction) := match afterWhole with
    | '.' :: rest => (digitsOf rest, rest.drop (digitsOf rest).length)
    | rest => ([], rest)
  if whole.isEmpty && fraction.isEmpty then none
  else (exponentOf? afterFraction).map fun power =>
    ⟨naturalOf (whole ++ fraction), power - fraction.length⟩

/-- The number of decimal digits of a natural number. -/
def digitCount (n : Nat) : Nat := (Nat.toDigits 10 n).length

/-- A decimal as a ratio of naturals. -/
def ratio (d : Decimal) : Nat × Nat :=
  if 0 ≤ d.exponent then (d.coefficient * 10 ^ d.exponent.toNat, 1)
  else (d.coefficient, 10 ^ (-d.exponent).toNat)

end Decimal

namespace Double

/-- The binary64 value nearest to a decimal.  Decimals of 10^310 and more are infinite and those
below 10^(-330) are zero, without computing their powers of ten. -/
def ofDecimal (negative : Bool) (d : Decimal) : Double :=
  let size : Int := d.exponent + Decimal.digitCount d.coefficient
  if d.coefficient = 0 ∨ size < -330 then .finite negative .zero
  else if 310 < size then .infinite negative
  else
    let (numerator, denominator) := d.ratio
    ofRatio negative numerator denominator

/-- Read a number with an optional sign; infinities and NaN are spelled by name in any case. -/
def ofText? (text : List Char) : Option Double :=
  let (negative, body) := match text with
    | '-' :: rest => (true, rest)
    | '+' :: rest | rest => (false, rest)
  let name := String.ofList (body.map Char.toLower)
  if name = "inf" ∨ name = "infinity" then some (.infinite negative)
  else if name = "nan" then some .nan
  else (Decimal.ofText? body).map (ofDecimal negative)

/-- The value of a literal that a lexer has found. -/
def ofLexeme (text : List Char) : Double :=
  ((Decimal.ofText? text).map (ofDecimal false)).getD zero

end Double

end IndicatorCompiler.Number
