import IndicatorCompiler.Scope
import IndicatorCompiler.Script.Syntax.Pattern

/-!
# Names of a unit

Before a unit is brought into slot form its names are collected: every declared name, so that
generated names can avoid it; the functions that the unit declares; the parameters of functions; and
the names taken off the context.
-/

namespace IndicatorCompiler.Survey

open Script

/-- A name and what the unit declares it as. -/
inductive NameUse where
  | binding (name : String)
  | function (name : String)
  | parameter (name : String)
  deriving DecidableEq, Repr

namespace NameUse

/-- The name itself. -/
def name : NameUse → String
  | .binding n => n
  | .function n => n
  | .parameter n => n

/-- The name, if it is that of a function. -/
def function? : NameUse → Option String
  | .function n => some n
  | _ => none

/-- The name, if it is that of a parameter. -/
def parameter? : NameUse → Option String
  | .parameter n => some n
  | _ => none

end NameUse

/-- The name under which a declaration binds a function. -/
def boundFunction : Pattern → Option Expr → List NameUse
  | .ident name, some (.function _) => [.function name]
  | _, _ => []

mutual
/-- The names declared inside an expression: those of the functions in it. -/
def namesInExpr : Expr → List NameUse
  | .ident _ | .lit _ => []
  | .array items | .sequence items => namesInExprs items
  | .object properties => namesInProperties properties
  | .function f => namesInFunction f
  | .unary _ arg | .update _ _ arg | .spread arg => namesInExpr arg
  | .binary _ left right => namesInExpr left ++ namesInExpr right
  | .assign _ target value => namesInExpr target ++ namesInExpr value
  | .conditional test consequent alternate =>
    namesInExpr test ++ namesInExpr consequent ++ namesInExpr alternate
  | .call callee args | .new callee args => namesInExpr callee ++ namesInExprs args
  | .member base _ => namesInExpr base
  | .index base i => namesInExpr base ++ namesInExpr i

/-- The names declared inside expressions. -/
def namesInExprs : List Expr → List NameUse
  | [] => []
  | e :: rest => namesInExpr e ++ namesInExprs rest

/-- The names declared inside an expression that may be missing. -/
def namesInExpr? : Option Expr → List NameUse
  | none => []
  | some e => namesInExpr e

/-- The names declared inside the properties of an object. -/
def namesInProperties : List Property → List NameUse
  | [] => []
  | ⟨.computed key, value, _⟩ :: rest =>
    namesInExpr key ++ namesInExpr value ++ namesInProperties rest
  | ⟨_, value, _⟩ :: rest => namesInExpr value ++ namesInProperties rest

/-- The parameters of a function and the names declared inside it. -/
def namesInFunction : Function → List NameUse
  | ⟨_, params, body, _⟩ => namesInParams params ++ namesInBody body

/-- Parameters, and the names declared inside their defaults. -/
def namesInParams : List Pattern → List NameUse
  | [] => []
  | param :: rest =>
    param.boundNames.map .parameter ++ namesInDefaults param ++ namesInParams rest

/-- The names declared inside the body of a function. -/
def namesInBody : FunctionBody → List NameUse
  | .block body => namesInStmts body
  | .expr value => namesInExpr value

/-- The names declared inside the defaults of a pattern. -/
def namesInDefaults : Pattern → List NameUse
  | .ident _ => []
  | .array items => namesInItemDefaults items
  | .object properties => namesInPropertyDefaults properties
  | .withDefault target value => namesInDefaults target ++ namesInExpr value
  | .rest target => namesInDefaults target

/-- The names declared inside the defaults of an array pattern. -/
def namesInItemDefaults : List (Option Pattern) → List NameUse
  | [] => []
  | none :: rest => namesInItemDefaults rest
  | some pattern :: rest => namesInDefaults pattern ++ namesInItemDefaults rest

/-- The names declared inside the defaults of an object pattern. -/
def namesInPropertyDefaults : List PatternProperty → List NameUse
  | [] => []
  | ⟨_, value⟩ :: rest => namesInDefaults value ++ namesInPropertyDefaults rest

/-- The names that a statement declares. -/
def namesInStmt : Stmt → List NameUse
  | .var _ decls => namesInDeclarators decls
  | .function f =>
    (match f with
      | ⟨name, _, _, _⟩ => name.toList.map .function) ++ namesInFunction f
  | .ret value => namesInExpr? value
  | .ifElse test consequent alternate =>
    namesInExpr test ++ namesInStmt consequent ++
      (match alternate with
        | none => []
        | some stmt => namesInStmt stmt)
  | .forLoop init test update body =>
    (match init with
      | none => []
      | some init => namesInInit init) ++ namesInExpr? test ++ namesInExpr? update ++
      namesInStmt body
  | .forEach _ _ pattern right body =>
    pattern.boundNames.map .binding ++ namesInDefaults pattern ++ namesInExpr right ++
      namesInStmt body
  | .whileLoop test body => namesInExpr test ++ namesInStmt body
  | .block body => namesInStmts body
  | .expr value => namesInExpr value
  | .breakLoop | .continueLoop | .empty => []

/-- The names that statements declare. -/
def namesInStmts : List Stmt → List NameUse
  | [] => []
  | stmt :: rest => namesInStmt stmt ++ namesInStmts rest

/-- The names that declarations bind, and those declared inside them. -/
def namesInDeclarators : List Declarator → List NameUse
  | [] => []
  | ⟨id, init⟩ :: rest =>
    id.boundNames.map .binding ++ namesInDefaults id ++ boundFunction id init ++
      namesInExpr? init ++ namesInDeclarators rest

/-- The names declared at the start of a counting loop. -/
def namesInInit : ForInit → List NameUse
  | .declare _ decls => namesInDeclarators decls
  | .expr value => namesInExpr value
end

/-- The names that a declaration takes off the context. -/
def takenOff (rootName : String) (decl : Declarator) : List String :=
  if decl.init.any (isContextRooted rootName) then decl.id.boundNames else []

/-- The names that the statements at the top of a unit take off the context. -/
def contextNames (rootName : String) (body : List Stmt) : List String :=
  body.flatMap fun
    | .var _ decls => decls.flatMap (takenOff rootName)
    | _ => []

end IndicatorCompiler.Survey
