import IndicatorCompiler.Scope
import IndicatorCompiler.Script.Syntax.Pattern

/-!
# The normal form of script bodies

In normal form every declaration binds one name, the bodies of loops and branches are blocks, and
functions have blocks for bodies.  A declaration that destructures is split into one declaration per
name, which read through a temporary; only a declaration that destructures the context itself stays.
A declaration of a function value is a function declaration.  The heads of loops are left alone.
-/

namespace IndicatorCompiler.NormalForm

open Script

/-- Why a body has no normal form. -/
inductive NormalError where
  /-- `let [a];` -/
  | missingValue
  | misplacedRest
  deriving DecidableEq, Repr

namespace NormalError

/-- The node that the error is about. -/
def node : NormalError → String
  | missingValue => "VariableDeclarator"
  | misplacedRest => "RestElement"

/-- What is wrong with the node. -/
def text : NormalError → String
  | missingValue => "destructuring declaration without an initializer"
  | misplacedRest => "rest element outside an array pattern"

end NormalError

/-- A step of normalisation; the scopes hand out temporaries. -/
abbrev Normalizing := StateT Scopes (Except NormalError)

/-- A new temporary. -/
def newTemp : Normalizing String := do
  let (name, scopes) := (← get).generateTemp
  set (scopes.addTemp name)
  return name

/-! ## Pieces -/

/-- A declaration of one pattern. -/
def declared (kind : VarKind) (id : Pattern) (init : Option Expr) : Stmt := .var kind [⟨id, init⟩]

/-- Statements as the body of a loop or a branch: one block. -/
def asBlock : List Stmt → Stmt
  | [.block body] => .block body
  | stmts => .block stmts

/-- Statements after `else`; a chain of `if` stays flat. -/
def asAlternate : List Stmt → Stmt
  | [.ifElse test consequent alternate] => .ifElse test consequent alternate
  | stmts => asBlock stmts

/-- The element of an array at a position. -/
def elementOf (source : Expr) (i : Nat) : Expr := .index source (.nat i)

/-- The elements of an array from a position on. -/
def elementsFrom (source : Expr) (i : Nat) : Expr := .call (.member source "slice") [.nat i]

/-- A value, or a default if there is none. -/
def orDefault (source value : Expr) : Expr := .binary .nullish source value

mutual
/-- The normal form of an expression; it differs only where the expression holds functions. -/
def normalExpr : Expr → Normalizing Expr
  | .ident name => return .ident name
  | .lit value => return .lit value
  | .array items => return .array (← normalExprs items)
  | .sequence items => return .sequence (← normalExprs items)
  | .object properties => return .object (← normalProperties properties)
  | .function f => return .function (← normalFunction f)
  | .unary op arg => return .unary op (← normalExpr arg)
  | .update op prefixed arg => return .update op prefixed (← normalExpr arg)
  | .spread arg => return .spread (← normalExpr arg)
  | .binary op left right => do
    let left ← normalExpr left
    return .binary op left (← normalExpr right)
  | .assign op target value => do
    let target ← normalExpr target
    return .assign op target (← normalExpr value)
  | .conditional test consequent alternate => do
    let test ← normalExpr test
    let consequent ← normalExpr consequent
    return .conditional test consequent (← normalExpr alternate)
  | .call callee args => do
    let callee ← normalExpr callee
    return .call callee (← normalExprs args)
  | .new callee args => do
    let callee ← normalExpr callee
    return .new callee (← normalExprs args)
  | .member base name => return .member (← normalExpr base) name
  | .index base i => do
    let base ← normalExpr base
    return .index base (← normalExpr i)

/-- Normal forms of expressions. -/
def normalExprs : List Expr → Normalizing (List Expr)
  | [] => return []
  | e :: rest => do
    let e ← normalExpr e
    return e :: (← normalExprs rest)

/-- The normal form of an expression that may be missing. -/
def normalExpr? : Option Expr → Normalizing (Option Expr)
  | none => return none
  | some e => return some (← normalExpr e)

/-- Normal forms of properties. -/
def normalProperties : List Property → Normalizing (List Property)
  | [] => return []
  | ⟨key, value, shorthand⟩ :: rest => do
    let key ← match key with
      | .computed key => do pure (.computed (← normalExpr key))
      | key => pure key
    let value ← normalExpr value
    return ⟨key, value, shorthand⟩ :: (← normalProperties rest)

/-- The normal form of a function; its parameters stay. -/
def normalFunction : Function → Normalizing Function
  | ⟨name, params, .block body, arrow⟩ => return ⟨name, params, .block (← normalStmts body), arrow⟩
  | ⟨name, params, .expr value, arrow⟩ =>
    return ⟨name, params, .block [.ret (some (← normalExpr value))], arrow⟩

/-- The statements that a statement becomes. -/
def normalStmt : Stmt → Normalizing (List Stmt)
  | .var kind decls => normalDeclarators kind decls
  | .function f => return [.function (← normalFunction f)]
  | .ret value => return [.ret (← normalExpr? value)]
  | .ifElse test consequent alternate => do
    let test ← normalExpr test
    let consequent := asBlock (← normalStmt consequent)
    let alternate ← match alternate with
      | none => pure none
      | some stmt => do pure (some (asAlternate (← normalStmt stmt)))
    return [.ifElse test consequent alternate]
  | .forLoop init test update body => do
    let init ← match init with
      | none => pure none
      | some init => do pure (some (← normalInit init))
    let test ← normalExpr? test
    let update ← normalExpr? update
    return [.forLoop init test update (asBlock (← normalStmt body))]
  | .forEach each kind pattern right body => do
    let right ← normalExpr right
    return [.forEach each kind pattern right (asBlock (← normalStmt body))]
  | .whileLoop test body => do
    let test ← normalExpr test
    return [.whileLoop test (asBlock (← normalStmt body))]
  | .block body => return [.block (← normalStmts body)]
  | .expr value => return [.expr (← normalExpr value)]
  | .empty => return []
  | .breakLoop => return [.breakLoop]
  | .continueLoop => return [.continueLoop]

/-- The statements that statements become. -/
def normalStmts : List Stmt → Normalizing (List Stmt)
  | [] => return []
  | stmt :: rest => do
    let stmts ← normalStmt stmt
    return stmts ++ (← normalStmts rest)

/-- The start of a counting loop; its patterns stay. -/
def normalInit : ForInit → Normalizing ForInit
  | .declare kind decls => return .declare kind (← normalLoopDeclarators decls)
  | .expr value => return .expr (← normalExpr value)

/-- The bindings of a counting loop. -/
def normalLoopDeclarators : List Declarator → Normalizing (List Declarator)
  | [] => return []
  | ⟨id, init⟩ :: rest => do
    let init ← normalExpr? init
    return ⟨id, init⟩ :: (← normalLoopDeclarators rest)

/-- The declarations that the bindings of a declaration become. -/
def normalDeclarators (kind : VarKind) : List Declarator → Normalizing (List Stmt)
  | [] => return []
  | ⟨id, init⟩ :: rest => do
    let stmts ← match id, init with
      | .ident name, some (.function f) => do
        let ⟨_, params, body, _⟩ ← normalFunction f
        pure [Stmt.function ⟨some name, params, body, false⟩]
      | .ident name, init => do pure [declared kind (.ident name) (← normalExpr? init)]
      | _, none => throw .missingValue
      | pattern, some init => do
        if isContextRooted (← get).rootName init then pure [declared kind pattern (some init)]
        else
          let temp ← newTemp
          let init ← normalExpr init
          let stmts ← expandPattern kind (.ident temp) pattern
          pure (declared .constant (.ident temp) (some init) :: stmts)
    return stmts ++ (← normalDeclarators kind rest)

/-- One declaration for each name that a pattern binds; it reads `source` as the pattern says. -/
def expandPattern (kind : VarKind) (source : Expr) : Pattern → Normalizing (List Stmt)
  | .ident name => return [declared kind (.ident name) (some source)]
  | .withDefault target value => do
    let value ← normalExpr value
    expandPattern kind (orDefault source value) target
  | .array items => expandItems kind source 0 items
  | .object properties => expandProperties kind source properties
  | .rest _ => throw .misplacedRest

/-- The declarations for the elements of an array pattern from position `i` on. -/
def expandItems (kind : VarKind) (source : Expr) (i : Nat) :
    List (Option Pattern) → Normalizing (List Stmt)
  | [] => return []
  | item :: rest => do
    let stmts ← match item with
      | none => pure []
      | some (.rest target) => expandPattern kind (elementsFrom source i) target
      | some pattern => expandPattern kind (elementOf source i) pattern
    return stmts ++ (← expandItems kind source (i + 1) rest)

/-- The declarations for the properties of an object pattern. -/
def expandProperties (kind : VarKind) (source : Expr) :
    List PatternProperty → Normalizing (List Stmt)
  | [] => return []
  | ⟨key, value⟩ :: rest => do
    let stmts ← expandPattern kind (.member source key) value
    return stmts ++ (← expandProperties kind source rest)
end

/-- The normal form of a body, and the scopes after its temporaries. -/
def normalBody (body : List Stmt) (scopes : Scopes) : Except NormalError (List Stmt × Scopes) :=
  (normalStmts body).run scopes

end IndicatorCompiler.NormalForm
