import IndicatorCompiler.Lowering.Tree

/-!
# Lowered programs

A program becomes one arrow function over the context.  Its header takes the free names off the
context; it can be written only after the body, which decides what is free.
-/

namespace IndicatorCompiler.Lowering

open Pine

/-- A line of the header, if it has names to take. -/
def headerLine (names : List String) (part : String) : String :=
  if names.isEmpty then ""
  else
    Text.indentation 1 ++ "const \x7b " ++ Text.joinWith ", " names ++ " \x7d = " ++ contextParam ++
      "." ++ part ++ ";\n"

/-- The text of a lowered script. -/
def scriptText (series library : List String) (body : List Emitted) : String :=
  "(" ++ contextParam ++ ") => \x7b\n" ++ headerLine series "data" ++ headerLine library "pine" ++
    Emitted.layoutAll 1 body ++ "\x7d\n"

/-- Lower a program, in a session in which others may have been lowered before. -/
def lowerProgram (program : Program) : Gen String := do
  declare (declaredIn program.body)
  modify fun g => { g with level := 1 }
  (lowerStmts program.body).forM (·.effect)
  let g ← get
  set { g with output := [] }
  return scriptText g.freeSeries g.freeLibrary g.output

/-- Lower a program. -/
def lower (program : Program) : String := ((lowerProgram program).run .initial).1

/-- The text of one expression. -/
def exprText (value : Expr) : String := (((lowerExpr value).text).run .initial).1

end IndicatorCompiler.Lowering
