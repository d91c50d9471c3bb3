import IndicatorCompiler.Lowering.Statement

/-!
# Lowering of trees

Every node is lowered by the rule for its kind, from its lowered parts.
-/

namespace IndicatorCompiler.Lowering

open Pine

mutual
/-- An expression lowered. -/
def lowerExpr : Expr → Lowered
  | .ident name => .ofRendered (return ⟨← reference name, Strength.primary⟩)
  | .int value => primary (toString value)
  | .float value => primary value.literal
  | .str value => primary (Text.quote value)
  | .color text => primary (Text.quote text)
  | .bool value => primary (if value then "true" else "false")
  | .na => primary "NaN"
  | .binary op left right => .ofRendered (renderBinary op (lowerExpr left) (lowerExpr right))
  | .unary op operand => .ofRendered (renderUnary op (lowerExpr operand))
  | .ternary test consequent alternate =>
    .ofRendered (renderTernary (lowerExpr test) (lowerExpr consequent) (lowerExpr alternate))
  | .call (.member base property) typeArgs args =>
    .ofRendered (renderMemberCall base (lowerExpr base) property typeArgs (lowerArguments args))
  | .call callee _ args => .ofRendered (renderCall (lowerExpr callee) (lowerArguments args))
  | .member base property => .ofRendered (renderMember (lowerExpr base) property)
  | .history target offset => .ofRendered (renderHistory (lowerExpr target) (lowerExpr offset))
  | .tuple items => .ofRendered (renderTuple (lowerExprs items))
  | .conditional branches last _ =>
    lowerConditional (lowerBranches branches)
      (match last with
        | none => none
        | some body => some (delivery (lowerStmts body)))
  | .switch discriminant cases lifts =>
    lowerSwitch
      (match discriminant with
        | none => none
        | some value => some (value, lowerExpr value))
      (lowerCases cases) lifts

/-- Expressions lowered. -/
def lowerExprs : List Expr → List Lowered
  | [] => []
  | value :: rest => lowerExpr value :: lowerExprs rest

/-- An expression that may be missing, lowered. -/
def lowerExpr? : Option Expr → Option Lowered
  | none => none
  | some value => some (lowerExpr value)

/-- Arguments lowered. -/
def lowerArguments : List Argument → List LoweredArgument
  | [] => []
  | ⟨name, value⟩ :: rest => ⟨name, lowerExpr value⟩ :: lowerArguments rest

/-- Branches lowered. -/
def lowerBranches : List Branch → List LoweredArm
  | [] => []
  | ⟨test, body⟩ :: rest => ⟨lowerExpr test, delivery (lowerStmts body)⟩ :: lowerBranches rest

/-- Cases lowered. -/
def lowerCases : List Case → List LoweredCase
  | [] => []
  | ⟨test, body⟩ :: rest =>
    let stmts := lowerStmts body
    ⟨lowerExpr? test, delivery stmts, singleValue? stmts⟩ :: lowerCases rest

/-- Parameters lowered. -/
def lowerParams : List Param → List LoweredParam
  | [] => []
  | ⟨name, _, default⟩ :: rest => ⟨name, lowerExpr? default⟩ :: lowerParams rest

/-- Fields lowered. -/
def lowerFields : List Field → List LoweredField
  | [] => []
  | ⟨name, type, default⟩ :: rest => ⟨name, type.text, lowerExpr? default⟩ :: lowerFields rest

/-- A statement lowered. -/
def lowerStmt : StmtKind → LoweredStmt
  | .varDecl mode _ target init => lowerDeclaration mode target init.needsLifting (lowerExpr init)
  | .reassign target op value => lowerReassign (lowerExpr target) op (lowerExpr value)
  | .function name _ params body _ =>
    .ofEffect (emitFunction name (lowerParams params) (lowerStmts body))
  | .typeDecl name fields _ => .ofEffect (emitType name (lowerFields fields))
  | .ifElse test body otherwise => lowerIf (lowerExpr test) (lowerStmts body) (lowerStmts otherwise)
  | .forRange counter start stop step body =>
    .ofEffect (emitForRange counter (start, lowerExpr start) (stop, lowerExpr stop)
      (match step with
        | none => none
        | some value => some (value, lowerExpr value))
      (lowerStmts body))
  | .forIn target iterable body =>
    .ofEffect (emitForIn target (lowerExpr iterable) (lowerStmts body))
  | .whileLoop test body => .ofEffect (emitWhile (lowerExpr test) (lowerStmts body))
  | .ret value => .ofEffect (emitReturn (lowerExpr? value))
  | .breakLoop => .ofEffect (line "break;")
  | .continueLoop => .ofEffect (line "continue;")
  | .expr value => lowerExprStmt value (lowerExpr value)

/-- Statements lowered. -/
def lowerStmts : List Stmt → List LoweredStmt
  | [] => []
  | ⟨kind, _⟩ :: rest => lowerStmt kind :: lowerStmts rest
end

end IndicatorCompiler.Lowering
