import IndicatorCompiler.Number.Double

/-!
# Syntax of the script

Trees of the script: expressions, binding patterns, functions and statements.  Nodes carry no
positions.
-/

namespace IndicatorCompiler.Script

/-! ## Operators and small words -/

/-- The word that introduces a declaration. -/
inductive VarKind where
  /-- `var` -/
  | var
  /-- `let` -/
  | lexical
  /-- `const` -/
  | constant
  deriving DecidableEq, Repr

/-- The spelling of a declaration word. -/
def VarKind.text : VarKind → String
  | var => "var"
  | lexical => "let"
  | constant => "const"

/-- What a loop over a collection walks over. -/
inductive ForEachKind where
  /-- `of` -/
  | elements
  /-- `in` -/
  | keys
  deriving DecidableEq, Repr

/-- The word between the binding and the collection. -/
def ForEachKind.text : ForEachKind → String
  | elements => "of"
  | keys => "in"

/-- Operators between two operands, logical ones included. -/
inductive BinaryOp where
  | add | sub | mul | div | mod
  | eq | notEq | strictEq | strictNotEq
  | lt | ltEq | gt | gtEq
  | and | or | nullish
  deriving DecidableEq, Repr

namespace BinaryOp

/-- The spelling of an operator. -/
def text : BinaryOp → String
  | add => "+"
  | sub => "-"
  | mul => "*"
  | div => "/"
  | mod => "%"
  | eq => "=="
  | notEq => "!="
  | strictEq => "==="
  | strictNotEq => "!=="
  | lt => "<"
  | ltEq => "<="
  | gt => ">"
  | gtEq => ">="
  | and => "&&"
  | or => "||"
  | nullish => "??"

/-- Binding strength; a higher one binds tighter. -/
def precedence : BinaryOp → Nat
  | nullish | or => 4
  | and => 5
  | eq | notEq | strictEq | strictNotEq => 9
  | lt | ltEq | gt | gtEq => 10
  | add | sub => 12
  | mul | div | mod => 13

end BinaryOp

/-- Operators in front of one operand. -/
inductive UnaryOp where
  | neg | plus | not | typeOf | void | delete
  deriving DecidableEq, Repr

namespace UnaryOp

/-- The spelling of an operator. -/
def text : UnaryOp → String
  | neg => "-"
  | plus => "+"
  | not => "!"
  | typeOf => "typeof"
  | void => "void"
  | delete => "delete"

/-- The operator is a word and needs a blank after it. -/
def isWord : UnaryOp → Bool
  | typeOf | void | delete => true
  | _ => false

end UnaryOp

/-- Counting up or down in place. -/
inductive UpdateOp where
  | increment | decrement
  deriving DecidableEq, Repr

/-- The spelling of an operator. -/
def UpdateOp.text : UpdateOp → String
  | increment => "++"
  | decrement => "--"

/-- Assignment, plain or with an arithmetic operator. -/
inductive AssignOp where
  | assign | add | sub | mul | div | mod
  deriving DecidableEq, Repr

namespace AssignOp

/-- The spelling of an operator. -/
def text : AssignOp → String
  | assign => "="
  | add => "+="
  | sub => "-="
  | mul => "*="
  | div => "/="
  | mod => "%="

/-- The arithmetic of a compound assignment. -/
def arithmetic? : AssignOp → Option BinaryOp
  | assign => none
  | add => some .add
  | sub => some .sub
  | mul => some .mul
  | div => some .div
  | mod => some .mod

end AssignOp

/-- Literal values. -/
inductive Literal where
  | num (value : Number.Double)
  | str (value : String)
  | bool (value : Bool)
  | null
  deriving DecidableEq

/-! ## Trees -/

mutual
/-- Expressions. -/
inductive Expr where
  | ident (name : String)
  | lit (value : Literal)
  | array (items : List Expr)
  | object (properties : List Property)
  | function (f : Function)
  | unary (op : UnaryOp) (arg : Expr)
  /-- `++x` if `prefixed`, else `x++`. -/
  | update (op : UpdateOp) (prefixed : Bool) (arg : Expr)
  | binary (op : BinaryOp) (left right : Expr)
  | assign (op : AssignOp) (target value : Expr)
  | conditional (test consequent alternate : Expr)
  | call (callee : Expr) (args : List Expr)
  | new (callee : Expr) (args : List Expr)
  /-- `object.name` -/
  | member (object : Expr) (name : String)
  /-- `object[index]` -/
  | index (object index : Expr)
  | sequence (items : List Expr)
  | spread (arg : Expr)

/-- A property of an object literal. -/
structure Property where
  key : PropertyKey
  value : Expr
  /-- Written `{ a }`, not `{ a: a }`. -/
  shorthand : Bool

/-- The key of a property. -/
inductive PropertyKey where
  | name (name : String)
  | str (value : String)
  | computed (key : Expr)

/-- A function, declared or in an expression. -/
structure Function where
  name : Option String
  params : List Pattern
  body : FunctionBody
  arrow : Bool

/-- The body of a function; only arrows have an expression for a body. -/
inductive FunctionBody where
  | block (body : List Stmt)
  | expr (value : Expr)

/-- Binding patterns. -/
inductive Pattern where
  | ident (name : String)
  /-- `[a, , b]`; a hole binds nothing. -/
  | array (items : List (Option Pattern))
  | object (properties : List PatternProperty)
  | withDefault (target : Pattern) (value : Expr)
  | rest (target : Pattern)

/-- A property of an object pattern; a rest element has an empty key. -/
structure PatternProperty where
  key : String
  value : Pattern

/-- Statements. -/
inductive Stmt where
  | var (kind : VarKind) (decls : List Declarator)
  | function (f : Function)
  | ret (value : Option Expr)
  | ifElse (test : Expr) (consequent : Stmt) (alternate : Option Stmt)
  | forLoop (init : Option ForInit) (test update : Option Expr) (body : Stmt)
  /-- Without a declaration word the loop assigns to what exists. -/
  | forEach (each : ForEachKind) (kind : Option VarKind) (pattern : Pattern) (right : Expr)
      (body : Stmt)
  | whileLoop (test : Expr) (body : Stmt)
  | breakLoop
  | continueLoop
  | block (body : List Stmt)
  | expr (value : Expr)
  | empty

/-- One binding of a declaration. -/
structure Declarator where
  id : Pattern
  init : Option Expr

/-- What a counting loop starts with. -/
inductive ForInit where
  | declare (kind : VarKind) (decls : List Declarator)
  | expr (value : Expr)
end

/-- A script: its statements. -/
structure Program where
  body : List Stmt

/-! ## Expressions that passes build -/

namespace Expr

/-- A number literal. -/
def num (value : Number.Double) : Expr := .lit (.num value)

/-- A literal count. -/
def nat (n : Nat) : Expr := num (.ofNat n)

/-- A string literal. -/
def str (value : String) : Expr := .lit (.str value)

/-- The name of the undefined value. -/
def undefined : Expr := .ident "undefined"

/-- `arg` negated. -/
def not (arg : Expr) : Expr := .unary .not arg

/-- The name at the root of a chain of accesses: `a` in `a.b[c].d`. -/
def rootIdent? : Expr → Option String
  | .ident name => some name
  | .member base _ | .index base _ => base.rootIdent?
  | _ => none

/-- The name that an expression is. -/
def ident? : Expr → Option String
  | .ident name => some name
  | _ => none

/-- A string literal. -/
def isString : Expr → Bool
  | .lit (.str _) => true
  | _ => false

end Expr

end IndicatorCompiler.Script
