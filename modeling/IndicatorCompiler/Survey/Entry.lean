import IndicatorCompiler.Scope

/-!
# The entry function

A unit is one function expression that takes the context.  Its parameter may have any name, or be
missing.
-/

namespace IndicatorCompiler.Survey

open Script

/-- Why a script is no unit. -/
inductive EntryError where
  | notFunction
  | emptyUnit
  | severalStatements
  | patternParameter
  | parameterCount (count : Nat)
  deriving DecidableEq, Repr

/-- What is wrong with the script. -/
def EntryError.text : EntryError → String
  | notFunction => "expected a function expression or arrow function"
  | emptyUnit => "empty unit"
  | severalStatements => "expected exactly one top-level function"
  | patternParameter => "the context parameter must be a plain identifier"
  | parameterCount count =>
    "the entry function takes one context parameter, found " ++ toString count

/-- The entry function of a unit. -/
structure Entry where
  /-- The spelling of the context parameter. -/
  rootName : String
  body : List Stmt

/-- Empty statements do not count. -/
def isEmpty : Stmt → Bool
  | .empty => true
  | _ => false

/-- The name of the context parameter. -/
def rootName : List Pattern → Except EntryError String
  | [] => .ok contextName
  | [.ident name] => .ok name
  | [_] => .error .patternParameter
  | params => .error (.parameterCount params.length)

/-- The statements of a function body; an expression is returned. -/
def bodyStmts : FunctionBody → List Stmt
  | .block body => body
  | .expr value => [.ret (some value)]

/-- The entry function of a script. -/
def entry (program : Program) : Except EntryError Entry :=
  match program.body.filter fun stmt => !isEmpty stmt with
  | [] => .error .emptyUnit
  | [.expr (.function f)] => return ⟨← rootName f.params, bodyStmts f.body⟩
  | [_] => .error .notFunction
  | _ => .error .severalStatements

end IndicatorCompiler.Survey
