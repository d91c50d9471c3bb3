import IndicatorCompiler.Number.Double
import IndicatorCompiler.Text.Lines

/-!
# Syntax of the indicator language

Trees of the indicator language.  A statement carries the line on which it starts; expressions have
no positions.  `if` and `switch` can stand as values; the tree says of each whether it can be
written as one expression or has to be lifted into statements.
-/

namespace IndicatorCompiler.Pine

/-! ## Small words -/

/-- How long a declared variable lives. -/
inductive DeclMode where
  /-- Computed again on every bar. -/
  | plain
  /-- Initialised once and kept across bars. -/
  | var
  /-- Kept across the updates within a bar as well. -/
  | varip
  /-- A constant. -/
  | constant
  deriving DecidableEq, Repr

/-- What a declaration binds. -/
inductive DeclTarget where
  | name (name : String)
  /-- `[a, b] = f()` -/
  | tuple (names : List String)
  deriving DecidableEq, Repr

/-- What the operator of a reassignment does. -/
inductive AssignOp where
  | assign | add | sub | mul | div | mod
  deriving DecidableEq, Repr

/-- Functions and methods; a method's first parameter is its receiver. -/
inductive FunctionKind where
  | function | method
  deriving DecidableEq, Repr

/-- What a loop over a collection binds. -/
inductive ForTarget where
  | name (name : String)
  /-- `for [index, value] in xs` -/
  | pair (index value : String)
  deriving DecidableEq, Repr

/-- Operators between two operands. -/
inductive BinaryOp where
  | add | sub | mul | div | mod
  | eq | notEq | lt | ltEq | gt | gtEq
  | and | or
  deriving DecidableEq, Repr

/-- Operators in front of one operand. -/
inductive UnaryOp where
  | neg | plus | not
  deriving DecidableEq, Repr

/-- Qualifiers of types. -/
inductive Qualifier where
  | constant | simple | series
  deriving DecidableEq, Repr

/-! ## Types -/

/-- A type annotation.  Types are carried along and not checked. -/
structure TypeRef where
  qualifier : Option Qualifier
  /-- Possibly dotted. -/
  name : String
  args : List TypeRef
  /-- Written with `[]` after it. -/
  array : Bool

namespace TypeRef

mutual
/-- The type as source writes it, without its qualifier. -/
def text : TypeRef → String
  | ⟨_, name, args, array⟩ =>
    let args := match args with
      | [] => ""
      | _ => "<" ++ Text.joinWith ", " (texts args) ++ ">"
    name ++ args ++ (if array then "[]" else "")

/-- The texts of type arguments. -/
def texts : List TypeRef → List String
  | [] => []
  | arg :: rest => arg.text :: texts rest
end

end TypeRef

/-! ## Trees -/

mutual
/-- Expressions. -/
inductive Expr where
  | ident (name : String)
  | int (value : Nat)
  | float (value : Number.Double)
  | str (value : String)
  | bool (value : Bool)
  | color (text : String)
  | na
  | binary (op : BinaryOp) (left right : Expr)
  | unary (op : UnaryOp) (operand : Expr)
  | ternary (test consequent alternate : Expr)
  | call (callee : Expr) (typeArgs : List TypeRef) (args : List Argument)
  | member (object : Expr) (property : String)
  /-- `series[offset]` -/
  | history (target offset : Expr)
  | tuple (items : List Expr)
  /-- `if` as a value; `lifts` if some branch is more than one expression. -/
  | conditional (branches : List Branch) (otherwise : Option (List Stmt)) (lifts : Bool)
  /-- `switch`; `lifts` if some case is more than one expression. -/
  | switch (discriminant : Option Expr) (cases : List Case) (lifts : Bool)

/-- An argument of a call, with a name if it is passed by name. -/
structure Argument where
  name : Option String
  value : Expr

/-- An `if` or `else if` and its body. -/
structure Branch where
  test : Expr
  body : List Stmt

/-- A case of a `switch`; the default case has no test. -/
structure Case where
  test : Option Expr
  body : List Stmt

/-- A parameter of a function. -/
structure Param where
  name : String
  type : Option TypeRef
  default : Option Expr

/-- A field of a type. -/
structure Field where
  name : String
  type : TypeRef
  default : Option Expr

/-- A statement and the line on which it starts. -/
structure Stmt where
  kind : StmtKind
  line : Nat

/-- What a statement is. -/
inductive StmtKind where
  | varDecl (mode : DeclMode) (type : Option TypeRef) (target : DeclTarget) (init : Expr)
  | reassign (target : Expr) (op : AssignOp) (value : Expr)
  | function (name : String) (kind : FunctionKind) (params : List Param) (body : List Stmt)
      (exported : Bool)
  | typeDecl (name : String) (fields : List Field) (exported : Bool)
  /-- An `else if` is an `if` that stands alone in `otherwise`. -/
  | ifElse (test : Expr) (body otherwise : List Stmt)
  | forRange (counter : String) (start stop : Expr) (step : Option Expr) (body : List Stmt)
  | forIn (target : ForTarget) (iterable : Expr) (body : List Stmt)
  | whileLoop (test : Expr) (body : List Stmt)
  /-- The result of a function; no source spells it. -/
  | ret (value : Option Expr)
  | breakLoop
  | continueLoop
  | expr (value : Expr)
end

/-- Indicator source as a tree: its statements. -/
structure Program where
  body : List Stmt

/-! ## Paths -/

namespace Expr

/-- The name at the root of a dotted path: `ta` in `ta.sma`. -/
def rootIdent? : Expr → Option String
  | .ident name => some name
  | .member base _ => base.rootIdent?
  | _ => none

/-- A dotted path as text: `ta.sma`. -/
def dottedPath? : Expr → Option String
  | .ident name => some name
  | .member base property => base.dottedPath?.map fun path => path ++ "." ++ property
  | _ => none

end Expr

end IndicatorCompiler.Pine
