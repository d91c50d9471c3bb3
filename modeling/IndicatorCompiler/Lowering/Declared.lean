import IndicatorCompiler.Pine.Syntax

/-!
# Declared names

Before a program is lowered its declarations are collected, at every depth.  A name that no
statement declares comes from the context; a call through a member whose name is a declared method
calls that method.
-/

namespace IndicatorCompiler.Lowering

open Pine

/-- A name that a program declares. -/
structure Declared where
  name : String
  /-- It names a method. -/
  method : Bool
  deriving DecidableEq, Repr

/-- A name of anything but a method. -/
def Declared.plain (name : String) : Declared := ⟨name, false⟩

/-- The names that a declaration binds. -/
def declaredByTarget : DeclTarget → List Declared
  | .name name => [.plain name]
  | .tuple names => names.map .plain

/-- The names that a loop over a collection binds. -/
def declaredByLoop : ForTarget → List Declared
  | .name name => [.plain name]
  | .pair index value => [.plain index, .plain value]

mutual
/-- The names declared inside an expression: only `if` and `switch` hold statements. -/
def declaredInExpr : Expr → List Declared
  | .conditional branches otherwise _ =>
    declaredInBranches branches ++
      (match otherwise with
        | none => []
        | some body => declaredIn body)
  | .switch _ cases _ => declaredInCases cases
  | .binary _ left right => declaredInExpr left ++ declaredInExpr right
  | .unary _ operand => declaredInExpr operand
  | .ternary test consequent alternate =>
    declaredInExpr test ++ declaredInExpr consequent ++ declaredInExpr alternate
  | .call callee _ args => declaredInExpr callee ++ declaredInArguments args
  | .member base _ => declaredInExpr base
  | .history target offset => declaredInExpr target ++ declaredInExpr offset
  | .tuple items => declaredInExprs items
  | .ident _ | .int _ | .float _ | .str _ | .bool _ | .color _ | .na => []

/-- The names declared inside expressions. -/
def declaredInExprs : List Expr → List Declared
  | [] => []
  | value :: rest => declaredInExpr value ++ declaredInExprs rest

/-- The names declared inside arguments. -/
def declaredInArguments : List Argument → List Declared
  | [] => []
  | ⟨_, value⟩ :: rest => declaredInExpr value ++ declaredInArguments rest

/-- The names declared in the bodies of branches. -/
def declaredInBranches : List Branch → List Declared
  | [] => []
  | ⟨_, body⟩ :: rest => declaredIn body ++ declaredInBranches rest

/-- The names declared in the bodies of cases. -/
def declaredInCases : List Case → List Declared
  | [] => []
  | ⟨_, body⟩ :: rest => declaredIn body ++ declaredInCases rest

/-- The names that a statement declares. -/
def declaredInStmt : StmtKind → List Declared
  | .varDecl _ _ target init => declaredByTarget target ++ declaredInExpr init
  | .reassign _ _ value => declaredInExpr value
  | .function name kind params body _ =>
    ⟨name, kind = .method⟩ :: params.map (fun p => .plain p.name) ++ declaredIn body
  | .typeDecl name _ _ => [.plain name]
  | .ifElse test body otherwise => declaredInExpr test ++ declaredIn body ++ declaredIn otherwise
  | .forRange counter _ _ _ body => .plain counter :: declaredIn body
  | .forIn target _ body => declaredByLoop target ++ declaredIn body
  | .whileLoop _ body => declaredIn body
  | .ret (some value) | .expr value => declaredInExpr value
  | .ret none | .breakLoop | .continueLoop => []

/-- The names that statements declare. -/
def declaredIn : List Stmt → List Declared
  | [] => []
  | ⟨kind, _⟩ :: rest => declaredInStmt kind ++ declaredIn rest
end

end IndicatorCompiler.Lowering
