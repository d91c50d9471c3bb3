import IndicatorCompiler.Number.Display
import IndicatorCompiler.Pine.Syntax
import IndicatorCompiler.Text.Escaped
import IndicatorCompiler.Text.Outline

/-!
# Outlines of indicator trees

Every node is shown with its name and all its parts, in a fixed order.
-/

namespace IndicatorCompiler.Pine

open Text (Outline)

/-! ## Small words -/

namespace DeclMode

/-- The name of the mode in outlines. -/
def label : DeclMode → String
  | plain => "Plain"
  | var => "Var"
  | varip => "Varip"
  | constant => "Const"

end DeclMode

namespace AssignOp

/-- The name of the operator in outlines. -/
def label : AssignOp → String
  | assign => "Assign"
  | add => "Add"
  | sub => "Sub"
  | mul => "Mul"
  | div => "Div"
  | mod => "Mod"

end AssignOp

namespace FunctionKind

/-- The name of the kind in outlines. -/
def label : FunctionKind → String
  | function => "Function"
  | method => "Method"

end FunctionKind

namespace BinaryOp

/-- The name of the operator in outlines. -/
def label : BinaryOp → String
  | add => "Add"
  | sub => "Sub"
  | mul => "Mul"
  | div => "Div"
  | mod => "Mod"
  | eq => "Eq"
  | notEq => "NotEq"
  | lt => "Lt"
  | ltEq => "LtEq"
  | gt => "Gt"
  | gtEq => "GtEq"
  | and => "And"
  | or => "Or"

end BinaryOp

namespace UnaryOp

/-- The name of the operator in outlines. -/
def label : UnaryOp → String
  | neg => "Neg"
  | plus => "Plus"
  | not => "Not"

end UnaryOp

namespace Qualifier

/-- The name of the qualifier in outlines. -/
def label : Qualifier → String
  | constant => "Const"
  | simple => "Simple"
  | series => "Series"

end Qualifier

/-- A text, quoted. -/
def outlineText (s : String) : Outline := .leaf (Text.showString s)

/-- Outline of what a declaration binds. -/
def DeclTarget.outline : DeclTarget → Outline
  | name n => .tuple "Name" [outlineText n]
  | tuple names => .tuple "Tuple" [.list (names.map outlineText)]

/-- Outline of what a loop over a collection binds. -/
def ForTarget.outline : ForTarget → Outline
  | name n => .tuple "Name" [outlineText n]
  | pair index value => .tuple "Pair" [outlineText index, outlineText value]

/-! ## Types -/

namespace TypeRef

mutual
/-- Outline of a type. -/
def outline : TypeRef → Outline
  | ⟨qualifier, name, args, array⟩ =>
    .record "TypeRef" [
      ⟨"qualifier", .optional (qualifier.map fun q => .leaf q.label)⟩,
      ⟨"name", outlineText name⟩,
      ⟨"args", .list (outlines args)⟩,
      ⟨"array", .ofBool array⟩]

/-- Outlines of types. -/
def outlines : List TypeRef → List Outline
  | [] => []
  | type :: rest => type.outline :: outlines rest
end

/-- Outline of a type that may be missing. -/
def outline? (type : Option TypeRef) : Outline := .optional (type.map outline)

end TypeRef

/-! ## Trees -/

mutual
/-- Outline of an expression. -/
def Expr.outline : Expr → Outline
  | .ident name => .tuple "Ident" [outlineText name]
  | .int value => .tuple "Int" [.ofNat value]
  | .float value => .tuple "Float" [.leaf value.marked]
  | .str value => .tuple "Str" [outlineText value]
  | .bool value => .tuple "Bool" [.ofBool value]
  | .color text => .tuple "Color" [outlineText text]
  | .na => .leaf "Na"
  | .binary op left right =>
    .record "Binary" [⟨"op", .leaf op.label⟩, ⟨"left", left.outline⟩, ⟨"right", right.outline⟩]
  | .unary op operand =>
    .record "Unary" [⟨"op", .leaf op.label⟩, ⟨"operand", operand.outline⟩]
  | .ternary test consequent alternate =>
    .record "Ternary" [⟨"test", test.outline⟩, ⟨"consequent", consequent.outline⟩,
      ⟨"alternate", alternate.outline⟩]
  | .call callee typeArgs args =>
    .record "Call" [⟨"callee", callee.outline⟩, ⟨"type_args", .list (TypeRef.outlines typeArgs)⟩,
      ⟨"args", .list (argumentOutlines args)⟩]
  | .member base property =>
    .record "Member" [⟨"object", base.outline⟩, ⟨"property", outlineText property⟩]
  | .history target offset =>
    .record "History" [⟨"target", target.outline⟩, ⟨"offset", offset.outline⟩]
  | .tuple items => .tuple "Tuple" [.list (exprOutlines items)]
  | .conditional branches otherwise lifts =>
    .tuple "Conditional" [.record "ConditionalExpr" [
      ⟨"branches", .list (branchOutlines branches)⟩,
      ⟨"orelse", .optional (match otherwise with
        | none => none
        | some body => some (.list (stmtOutlines body)))⟩,
      ⟨"needs_lifting", .ofBool lifts⟩]]
  | .switch discriminant cases lifts =>
    .tuple "Switch" [.record "SwitchExpr" [
      ⟨"discriminant", exprOutline? discriminant⟩,
      ⟨"cases", .list (caseOutlines cases)⟩,
      ⟨"needs_lifting", .ofBool lifts⟩]]

/-- Outline of an expression that may be missing. -/
def exprOutline? : Option Expr → Outline
  | none => .optional none
  | some value => .optional (some value.outline)

/-- Outlines of expressions. -/
def exprOutlines : List Expr → List Outline
  | [] => []
  | value :: rest => value.outline :: exprOutlines rest

/-- Outlines of arguments. -/
def argumentOutlines : List Argument → List Outline
  | [] => []
  | ⟨name, value⟩ :: rest =>
    .record "Argument" [⟨"name", .optional (name.map outlineText)⟩, ⟨"value", value.outline⟩] ::
      argumentOutlines rest

/-- Outlines of branches. -/
def branchOutlines : List Branch → List Outline
  | [] => []
  | ⟨test, body⟩ :: rest =>
    .record "ConditionalBranch" [⟨"test", test.outline⟩, ⟨"body", .list (stmtOutlines body)⟩] ::
      branchOutlines rest

/-- Outlines of the cases of a `switch`. -/
def caseOutlines : List Case → List Outline
  | [] => []
  | ⟨test, body⟩ :: rest =>
    .record "SwitchCase" [⟨"test", exprOutline? test⟩, ⟨"body", .list (stmtOutlines body)⟩] ::
      caseOutlines rest

/-- Outlines of parameters. -/
def paramOutlines : List Param → List Outline
  | [] => []
  | ⟨name, type, default⟩ :: rest =>
    .record "Param" [⟨"name", outlineText name⟩, ⟨"ty", TypeRef.outline? type⟩,
      ⟨"default", exprOutline? default⟩] :: paramOutlines rest

/-- Outlines of fields. -/
def fieldOutlines : List Field → List Outline
  | [] => []
  | ⟨name, type, default⟩ :: rest =>
    .record "Field" [⟨"name", outlineText name⟩, ⟨"ty", type.outline⟩,
      ⟨"default", exprOutline? default⟩] :: fieldOutlines rest

/-- Outline of a statement. -/
def Stmt.outline : Stmt → Outline
  | ⟨kind, line⟩ => .record "Stmt" [⟨"kind", kind.outline⟩, ⟨"line", .ofNat line⟩]

/-- Outlines of statements. -/
def stmtOutlines : List Stmt → List Outline
  | [] => []
  | stmt :: rest => stmt.outline :: stmtOutlines rest

/-- Outline of what a statement is. -/
def StmtKind.outline : StmtKind → Outline
  | .varDecl mode type target init =>
    .tuple "VarDecl" [.record "VarDecl" [⟨"mode", .leaf mode.label⟩, ⟨"ty", TypeRef.outline? type⟩,
      ⟨"target", target.outline⟩, ⟨"init", init.outline⟩]]
  | .reassign target op value =>
    .tuple "Reassign" [.record "Reassign" [⟨"target", target.outline⟩, ⟨"op", .leaf op.label⟩,
      ⟨"value", value.outline⟩]]
  | .function name kind params body exported =>
    .tuple "FunctionDecl" [.record "FunctionDecl" [⟨"name", outlineText name⟩,
      ⟨"kind", .leaf kind.label⟩, ⟨"params", .list (paramOutlines params)⟩,
      ⟨"body", .list (stmtOutlines body)⟩, ⟨"exported", .ofBool exported⟩]]
  | .typeDecl name fields exported =>
    .tuple "TypeDecl" [.record "TypeDecl" [⟨"name", outlineText name⟩,
      ⟨"fields", .list (fieldOutlines fields)⟩, ⟨"exported", .ofBool exported⟩]]
  | .ifElse test body otherwise =>
    .tuple "If" [.record "IfStmt" [⟨"test", test.outline⟩, ⟨"body", .list (stmtOutlines body)⟩,
      ⟨"orelse", .list (stmtOutlines otherwise)⟩]]
  | .forRange counter start stop step body =>
    .tuple "ForRange" [.record "ForRange" [⟨"var", outlineText counter⟩, ⟨"start", start.outline⟩,
      ⟨"end", stop.outline⟩, ⟨"step", exprOutline? step⟩, ⟨"body", .list (stmtOutlines body)⟩]]
  | .forIn target iterable body =>
    .tuple "ForIn" [.record "ForIn" [⟨"target", target.outline⟩, ⟨"iterable", iterable.outline⟩,
      ⟨"body", .list (stmtOutlines body)⟩]]
  | .whileLoop test body =>
    .tuple "While" [.record "WhileStmt" [⟨"test", test.outline⟩,
      ⟨"body", .list (stmtOutlines body)⟩]]
  | .ret value => .tuple "Return" [exprOutline? value]
  | .breakLoop => .leaf "Break"
  | .continueLoop => .leaf "Continue"
  | .expr value => .tuple "Expr" [value.outline]
end

/-- Outline of a program. -/
def Program.outline (program : Program) : Outline :=
  .record "Program" [⟨"body", .list (stmtOutlines program.body)⟩]

end IndicatorCompiler.Pine
