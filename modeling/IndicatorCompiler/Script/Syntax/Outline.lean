import IndicatorCompiler.Number.Display
import IndicatorCompiler.Script.Syntax
import IndicatorCompiler.Text.Escaped
import IndicatorCompiler.Text.Outline

/-!
# Outlines of script trees

Every node is shown with its name and all its parts, in a fixed order.
-/

namespace IndicatorCompiler.Script

open Text (Outline)

/-! ## Operators and small words -/

namespace VarKind

/-- The name of the word in outlines. -/
def label : VarKind → String
  | var => "Var"
  | lexical => "Let"
  | constant => "Const"

end VarKind

namespace ForEachKind

/-- The name of the word in outlines. -/
def label : ForEachKind → String
  | elements => "Of"
  | keys => "In"

end ForEachKind

namespace BinaryOp

/-- The name of the operator in outlines. -/
def label : BinaryOp → String
  | add => "Add"
  | sub => "Sub"
  | mul => "Mul"
  | div => "Div"
  | mod => "Mod"
  | eq => "Eq"
  | notEq => "NotEq"
  | strictEq => "StrictEq"
  | strictNotEq => "StrictNotEq"
  | lt => "Lt"
  | ltEq => "LtEq"
  | gt => "Gt"
  | gtEq => "GtEq"
  | and => "And"
  | or => "Or"
  | nullish => "Nullish"

end BinaryOp

namespace UnaryOp

/-- The name of the operator in outlines. -/
def label : UnaryOp → String
  | neg => "Neg"
  | plus => "Plus"
  | not => "Not"
  | typeOf => "Typeof"
  | void => "Void"
  | delete => "Delete"

end UnaryOp

namespace UpdateOp

/-- The name of the operator in outlines. -/
def label : UpdateOp → String
  | increment => "Increment"
  | decrement => "Decrement"

end UpdateOp

namespace AssignOp

/-- The name of the operator in outlines. -/
def label : AssignOp → String
  | assign => "Assign"
  | add => "Add"
  | sub => "Sub"
  | mul => "Mul"
  | div => "Div"
  | mod => "Mod"

end AssignOp

/-- A text, quoted. -/
def outlineText (s : String) : Outline := .leaf (Text.showString s)

/-- Outline of a literal. -/
def Literal.outline : Literal → Outline
  | num value => .tuple "Num" [.leaf value.marked]
  | str value => .tuple "Str" [outlineText value]
  | bool value => .tuple "Bool" [.ofBool value]
  | null => .leaf "Null"

/-! ## Trees -/

mutual
/-- Outline of an expression. -/
def Expr.outline : Expr → Outline
  | .ident name => .tuple "Ident" [outlineText name]
  | .lit value => .tuple "Lit" [value.outline]
  | .array items => .tuple "Array" [.list (exprOutlines items)]
  | .object properties => .tuple "Object" [.list (propertyOutlines properties)]
  | .function f => .tuple "Function" [f.outline]
  | .unary op arg => .record "Unary" [⟨"op", .leaf op.label⟩, ⟨"arg", arg.outline⟩]
  | .update op prefixed arg =>
    .record "Update" [⟨"op", .leaf op.label⟩, ⟨"prefix", .ofBool prefixed⟩, ⟨"arg", arg.outline⟩]
  | .binary op left right =>
    .record "Binary" [⟨"op", .leaf op.label⟩, ⟨"left", left.outline⟩, ⟨"right", right.outline⟩]
  | .assign op target value =>
    .record "Assign" [⟨"op", .leaf op.label⟩, ⟨"target", target.outline⟩, ⟨"value", value.outline⟩]
  | .conditional test consequent alternate =>
    .record "Conditional" [⟨"test", test.outline⟩, ⟨"consequent", consequent.outline⟩,
      ⟨"alternate", alternate.outline⟩]
  | .call callee args =>
    .record "Call" [⟨"callee", callee.outline⟩, ⟨"args", .list (exprOutlines args)⟩]
  | .new callee args =>
    .record "New" [⟨"callee", callee.outline⟩, ⟨"args", .list (exprOutlines args)⟩]
  | .member base name =>
    .record "Member" [⟨"object", base.outline⟩, ⟨"property", .tuple "Name" [outlineText name]⟩]
  | .index base i =>
    .record "Member" [⟨"object", base.outline⟩, ⟨"property", .tuple "Computed" [i.outline]⟩]
  | .sequence items => .tuple "Sequence" [.list (exprOutlines items)]
  | .spread arg => .tuple "Spread" [arg.outline]

/-- Outlines of expressions. -/
def exprOutlines : List Expr → List Outline
  | [] => []
  | e :: rest => e.outline :: exprOutlines rest

/-- Outline of an expression that may be missing. -/
def exprOutline? : Option Expr → Outline
  | none => .optional none
  | some e => .optional (some e.outline)

/-- Outlines of properties. -/
def propertyOutlines : List Property → List Outline
  | [] => []
  | ⟨key, value, shorthand⟩ :: rest =>
    .record "Property" [⟨"key", key.outline⟩, ⟨"value", value.outline⟩,
      ⟨"shorthand", .ofBool shorthand⟩] :: propertyOutlines rest

/-- Outline of the key of a property. -/
def PropertyKey.outline : PropertyKey → Outline
  | .name name => .tuple "Name" [outlineText name]
  | .str value => .tuple "Str" [outlineText value]
  | .computed key => .tuple "Computed" [key.outline]

/-- Outline of a function. -/
def Function.outline : Function → Outline
  | ⟨name, params, body, arrow⟩ =>
    .record "Function" [⟨"name", .optional (name.map outlineText)⟩,
      ⟨"params", .list (patternOutlines params)⟩, ⟨"body", body.outline⟩,
      ⟨"arrow", .ofBool arrow⟩]

/-- Outline of the body of a function. -/
def FunctionBody.outline : FunctionBody → Outline
  | .block body => .tuple "Block" [.list (stmtOutlines body)]
  | .expr value => .tuple "Expr" [value.outline]

/-- Outline of a pattern. -/
def Pattern.outline : Pattern → Outline
  | .ident name => .tuple "Ident" [outlineText name]
  | .array items => .tuple "Array" [.list (patternItemOutlines items)]
  | .object properties => .tuple "Object" [.list (patternPropertyOutlines properties)]
  | .withDefault target value =>
    .record "Default" [⟨"target", target.outline⟩, ⟨"value", value.outline⟩]
  | .rest target => .tuple "Rest" [target.outline]

/-- Outlines of patterns. -/
def patternOutlines : List Pattern → List Outline
  | [] => []
  | pattern :: rest => pattern.outline :: patternOutlines rest

/-- Outlines of the elements of an array pattern. -/
def patternItemOutlines : List (Option Pattern) → List Outline
  | [] => []
  | none :: rest => .optional none :: patternItemOutlines rest
  | some pattern :: rest => .optional (some pattern.outline) :: patternItemOutlines rest

/-- Outlines of the properties of an object pattern. -/
def patternPropertyOutlines : List PatternProperty → List Outline
  | [] => []
  | ⟨key, value⟩ :: rest =>
    .record "PropertyPattern" [⟨"key", outlineText key⟩, ⟨"value", value.outline⟩] ::
      patternPropertyOutlines rest

/-- Outline of a statement. -/
def Stmt.outline : Stmt → Outline
  | .var kind decls =>
    .record "Var" [⟨"kind", .leaf kind.label⟩, ⟨"decls", .list (declaratorOutlines decls)⟩]
  | .function f => .tuple "Function" [f.outline]
  | .ret value => .tuple "Return" [exprOutline? value]
  | .ifElse test consequent alternate =>
    .record "If" [⟨"test", test.outline⟩, ⟨"consequent", consequent.outline⟩,
      ⟨"alternate", match alternate with
        | none => .optional none
        | some stmt => .optional (some stmt.outline)⟩]
  | .forLoop init test update body =>
    .record "For" [
      ⟨"init", match init with
        | none => .optional none
        | some init => .optional (some init.outline)⟩,
      ⟨"test", exprOutline? test⟩, ⟨"update", exprOutline? update⟩, ⟨"body", body.outline⟩]
  | .forEach each kind pattern right body =>
    .record "ForEach" [⟨"each", .leaf each.label⟩,
      ⟨"left", .record "ForEachLeft" [
        ⟨"kind", .optional (kind.map fun k => .leaf k.label)⟩, ⟨"pattern", pattern.outline⟩]⟩,
      ⟨"right", right.outline⟩, ⟨"body", body.outline⟩]
  | .whileLoop test body => .record "While" [⟨"test", test.outline⟩, ⟨"body", body.outline⟩]
  | .breakLoop => .leaf "Break"
  | .continueLoop => .leaf "Continue"
  | .block body => .tuple "Block" [.list (stmtOutlines body)]
  | .expr value => .tuple "Expr" [value.outline]
  | .empty => .leaf "Empty"

/-- Outlines of statements. -/
def stmtOutlines : List Stmt → List Outline
  | [] => []
  | stmt :: rest => stmt.outline :: stmtOutlines rest

/-- Outlines of the bindings of a declaration. -/
def declaratorOutlines : List Declarator → List Outline
  | [] => []
  | ⟨id, init⟩ :: rest =>
    .record "Declarator" [⟨"id", id.outline⟩, ⟨"init", exprOutline? init⟩] ::
      declaratorOutlines rest

/-- Outline of what a counting loop starts with. -/
def ForInit.outline : ForInit → Outline
  | .declare kind decls =>
    .record "Var" [⟨"kind", .leaf kind.label⟩, ⟨"decls", .list (declaratorOutlines decls)⟩]
  | .expr value => .tuple "Expr" [value.outline]
end

/-- Outline of a script. -/
def Program.outline (program : Program) : Outline :=
  .record "Program" [⟨"body", .list (stmtOutlines program.body)⟩]

end IndicatorCompiler.Script
