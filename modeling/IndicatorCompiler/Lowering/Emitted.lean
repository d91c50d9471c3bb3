import IndicatorCompiler.Text.Lines

/-!
# Emitted statements

Lowering emits statements one by one.  An emitted statement keeps the structure that its layout
shows: blocks, chains of `if`, assignments and returns; the expressions in it are already text.
-/

namespace IndicatorCompiler.Lowering

mutual
/-- A statement of a lowered script. -/
inductive Emitted where
  /-- A statement on a line of its own. -/
  | line (text : String)
  /-- `name = value;` -/
  | assign (name value : String)
  /-- `return value;` -/
  | ret (value : String)
  /-- A head with a block in braces. -/
  | block (head : String) (body : List Emitted)
  /-- `if`, any number of `else if`, and maybe `else`. -/
  | chain (first : EmittedArm) (more : List EmittedArm) (otherwise : Option (List Emitted))

/-- A test and the statements under it. -/
structure EmittedArm where
  test : String
  body : List Emitted
end

namespace Emitted

mutual
/-- A statement laid out at an indentation level. -/
def layout (level : Nat) : Emitted → String
  | .line text => Text.indentation level ++ text ++ "\n"
  | .assign name value => Text.indentation level ++ name ++ " = " ++ value ++ ";\n"
  | .ret value => Text.indentation level ++ "return " ++ value ++ ";\n"
  | .block head body =>
    Text.indentation level ++ head ++ " \x7b\n" ++ layoutAll (level + 1) body ++
      Text.indentation level ++ "\x7d\n"
  | .chain first more otherwise =>
    Text.indentation level ++ "if " ++ layoutArm level first ++ layoutArms level more ++
      (match otherwise with
        | none => ""
        | some body =>
          " else \x7b\n" ++ layoutAll (level + 1) body ++ Text.indentation level ++ "\x7d") ++ "\n"

/-- A test in parentheses and its block, without a line end. -/
def layoutArm (level : Nat) : EmittedArm → String
  | ⟨test, body⟩ =>
    "(" ++ test ++ ") \x7b\n" ++ layoutAll (level + 1) body ++ Text.indentation level ++ "\x7d"

/-- Each arm after `else if`. -/
def layoutArms (level : Nat) : List EmittedArm → String
  | [] => ""
  | arm :: rest => " else if " ++ layoutArm level arm ++ layoutArms level rest

/-- Statements laid out one after the other. -/
def layoutAll (level : Nat) : List Emitted → String
  | [] => ""
  | stmt :: rest => layout level stmt ++ layoutAll level rest
end

theorem layoutAll_append (level : Nat) (first second : List Emitted) :
    layoutAll level (first ++ second) = layoutAll level first ++ layoutAll level second := by
  induction first with
  | nil => simp [layoutAll]
  | cons stmt rest ih => simp [layoutAll, ih, String.append_assoc]

end Emitted

end IndicatorCompiler.Lowering
