import IndicatorCompiler.Number.Decimal
import IndicatorCompiler.Text.Lines
import IndicatorCompiler.Text.Unicode

/-!
# Version pragmas

A line that holds nothing but the comment `//@version=N` names the version of the language.  Its
presence tells indicator source from a script.  Blanks may stand between its parts, and the digits
may be of any script, but only ASCII digits name a version.
-/

namespace IndicatorCompiler.Version

/-- The oldest version that is accepted. -/
def minimum : Nat := 5

/-- Versions are numbers of 32 bits. -/
def bound : Nat := 2 ^ 32

/-- A pragma as written. -/
structure Pragma where
  digits : String
  /-- Its line, counted from one. -/
  line : Nat
  deriving DecidableEq, Repr

/-- Why a source has no usable version. -/
inductive VersionError where
  | missing
  | unsupported (found : String) (line : Nat)
  | mismatch (expected found line : Nat)
  | conflict (first second line : Nat)
  deriving DecidableEq, Repr

namespace VersionError

/-- The line of the offending pragma. -/
def line? : VersionError → Option Nat
  | missing => none
  | unsupported _ line | mismatch _ _ line | conflict _ _ line => some line

/-- What is wrong. -/
def message : VersionError → String
  | missing => "missing `//@version=N` pragma"
  | unsupported found line =>
    "unsupported version " ++ found ++ " on line " ++ toString line ++ " (minimum is " ++
      toString minimum ++ ")"
  | mismatch expected found line =>
    "version mismatch: expected " ++ toString expected ++ ", found " ++ toString found ++
      " on line " ++ toString line
  | conflict first second line =>
    "conflicting version pragmas: " ++ toString first ++ " and " ++ toString second ++
      " on line " ++ toString line

end VersionError

/-! ## Finding pragmas -/

/-- A blank or a tab. -/
def isGap (c : Char) : Bool := c == ' ' || c == '\t'

/-- The rest of `line` after `word`, if the line starts with it. -/
def after? (word line : List Char) : Option (List Char) :=
  if word.isPrefixOf line then some (line.drop word.length) else none

/-- The digits of a pragma, if the line is one. -/
def pragmaDigits? (line : List Char) : Option (List Char) := do
  let rest ← after? "//".toList (line.dropWhile isGap)
  let rest ← after? "@version".toList (rest.dropWhile isGap)
  let rest ← after? "=".toList (rest.dropWhile isGap)
  let rest := rest.dropWhile isGap
  let digits := rest.takeWhile Text.Unicode.isDecimalDigit
  let rest := (rest.drop digits.length).dropWhile isGap
  if digits.isEmpty then none
  else if rest = [] ∨ rest = ['\r'] then some digits
  else none

/-- The pragmas among lines, the first of which has number `line`. -/
def pragmasFrom (line : Nat) : List (List Char) → List Pragma
  | [] => []
  | text :: rest =>
    match pragmaDigits? text with
    | some digits => ⟨String.ofList digits, line⟩ :: pragmasFrom (line + 1) rest
    | none => pragmasFrom (line + 1) rest

/-- Every pragma of a source, in order. -/
def pragmas (source : String) : List Pragma := pragmasFrom 1 (Text.splitLines source.toList)

/-! ## The version they name -/

/-- The number written by ASCII digits, if it fits. -/
def number? (digits : List Char) : Option Nat :=
  if digits.isEmpty || !digits.all Char.isDigit then none
  else
    let n := Number.naturalOf digits
    if n < bound then some n else none

/-- The version that a pragma names, if it is supported. -/
def Pragma.version? (p : Pragma) : Option Nat :=
  (number? p.digits.toList).filter (minimum ≤ ·)

/-- Read pragmas after `resolved` has been named by those before. -/
def resolveFrom (expected : Option Nat) :
    Option Nat → List Pragma → Except VersionError (Option Nat)
  | resolved, [] => .ok resolved
  | resolved, p :: rest =>
    match p.version? with
    | none => .error (.unsupported p.digits p.line)
    | some version =>
      match resolved with
      | some first =>
        if first = version then resolveFrom expected (some first) rest
        else .error (.conflict first version p.line)
      | none =>
        match expected with
        | none => resolveFrom expected (some version) rest
        | some wanted =>
          if wanted = version then resolveFrom expected (some version) rest
          else .error (.mismatch wanted version p.line)

/-- The one version that all pragmas name, and that is expected; none without pragmas. -/
def resolve (expected : Option Nat) (found : List Pragma) : Except VersionError (Option Nat) :=
  resolveFrom expected none found

end IndicatorCompiler.Version
