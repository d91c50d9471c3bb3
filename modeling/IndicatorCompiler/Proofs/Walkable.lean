import IndicatorCompiler.Script.Grammar.Expression
import IndicatorCompiler.SlotForm.Walk

/-!
# Trees that are ready for a walk

Ready means that every declaration that the walk comes to declares a single name or takes names off
the context, and that only names, members and patterns are assigned to.
-/

namespace IndicatorCompiler.Script

/-- What is asked of a tree before a walk. -/
structure Demand where
  /-- The context parameter of the unit. -/
  root : String
  /-- Declarations are asked about, and not only what is assigned to. -/
  declarations : Bool

/-- The pattern is a single name. -/
def Pattern.isIdent : Pattern → Bool
  | .ident _ => true
  | _ => false

/-- The binding declares a single name, takes names off the context or stands in the head of a
loop. -/
def Demand.meets (c : Demand) (loop : Bool) (id : Pattern) (init : Option Expr) : Bool :=
  loop || id.isIdent || init.any (isContextRooted c.root)

/-- Normalisation leaves the value of the binding as it is. -/
def Demand.leaves (c : Demand) (loop : Bool) (id : Pattern) (init : Option Expr) : Bool :=
  !loop && !id.isIdent && init.any (isContextRooted c.root)

mutual
/-- A walk can go through the expression.  A `raw` expression is normalised first, and only what
that leaves as it is has to be ready. -/
def Expr.walkable (c : Demand) (raw : Bool) : Expr → Bool
  | .ident _ | .lit _ => true
  | .array items => walkableExprs c raw items
  | .object properties => walkableProperties c raw properties
  | .function f => f.walkable c raw
  | .unary _ arg | .update _ _ arg => arg.walkable c raw
  | .binary _ left right => left.walkable c raw && right.walkable c raw
  | .assign op target value =>
    (raw || Grammar.isAssignable op target) && target.walkable c raw && value.walkable c raw
  | .conditional test consequent alternate =>
    test.walkable c raw && consequent.walkable c raw && alternate.walkable c raw
  | .call callee args | .new callee args => callee.walkable c raw && walkableExprs c raw args
  | .member base _ => base.walkable c raw
  | .index base i => base.walkable c raw && i.walkable c raw
  | .sequence items => walkableExprs c raw items
  | .spread arg => arg.walkable c raw

/-- A walk can go through the expressions. -/
def walkableExprs (c : Demand) (raw : Bool) : List Expr → Bool
  | [] => true
  | e :: rest => e.walkable c raw && walkableExprs c raw rest

/-- A walk can go through the expression, if it is there. -/
def walkableExpr? (c : Demand) (raw : Bool) : Option Expr → Bool
  | none => true
  | some e => e.walkable c raw

/-- A walk can go through the properties. -/
def walkableProperties (c : Demand) (raw : Bool) : List Property → Bool
  | [] => true
  | ⟨key, value, _⟩ :: rest =>
    key.walkable c raw && value.walkable c raw && walkableProperties c raw rest

/-- A walk can go through the key. -/
def PropertyKey.walkable (c : Demand) (raw : Bool) : PropertyKey → Bool
  | .name _ | .str _ => true
  | .computed key => key.walkable c raw

/-- A walk can go through the function. -/
def Function.walkable (c : Demand) (raw : Bool) : Function → Bool
  | ⟨_, params, body, _⟩ => walkableParams c params && body.walkable c raw

/-- A walk can go through the function body. -/
def FunctionBody.walkable (c : Demand) (raw : Bool) : FunctionBody → Bool
  | .block body => walkableStmts c raw body
  | .expr value => value.walkable c raw

/-- A walk can go through the default of a parameter; those within its pattern it does not come
to. -/
def Pattern.walkable (c : Demand) : Pattern → Bool
  | .withDefault _ value => value.walkable c false
  | _ => true

/-- A walk can go through the parameters. -/
def walkableParams (c : Demand) : List Pattern → Bool
  | [] => true
  | param :: rest => param.walkable c && walkableParams c rest

/-- A walk can go through what the pattern is split into. -/
def Pattern.splittable (c : Demand) : Pattern → Bool
  | .ident _ => true
  | .array items => splittableItems c items
  | .object properties => splittableProperties c properties
  | .withDefault target value => target.splittable c && value.walkable c true
  | .rest target => target.splittable c

/-- The same for the elements of a pattern. -/
def splittableItems (c : Demand) : List (Option Pattern) → Bool
  | [] => true
  | none :: rest => splittableItems c rest
  | some pattern :: rest => pattern.splittable c && splittableItems c rest

/-- The same for the properties of a pattern. -/
def splittableProperties (c : Demand) : List PatternProperty → Bool
  | [] => true
  | ⟨_, value⟩ :: rest => value.splittable c && splittableProperties c rest

/-- A walk can go through the statement. -/
def Stmt.walkable (c : Demand) (raw : Bool) : Stmt → Bool
  | .var _ decls => walkableDeclarators c raw false decls
  | .function f => f.walkable c raw
  | .ret value => walkableExpr? c raw value
  | .ifElse test consequent alternate =>
    test.walkable c raw && consequent.walkable c raw && (match alternate with
        | none => true
        | some stmt => stmt.walkable c raw)
  | .forLoop init test update body =>
    walkableInit c raw init && walkableExpr? c raw test && walkableExpr? c raw update &&
      body.walkable c raw
  | .forEach _ _ _ right body => right.walkable c raw && body.walkable c raw
  | .whileLoop test body => test.walkable c raw && body.walkable c raw
  | .block body => walkableStmts c raw body
  | .expr value => value.walkable c raw
  | .breakLoop | .continueLoop | .empty => true

/-- A walk can go through the statements. -/
def walkableStmts (c : Demand) (raw : Bool) : List Stmt → Bool
  | [] => true
  | stmt :: rest => stmt.walkable c raw && walkableStmts c raw rest

/-- A walk can go through what a loop starts with. -/
def walkableInit (c : Demand) (raw : Bool) : Option ForInit → Bool
  | none => true
  | some (.declare _ decls) => walkableDeclarators c raw true decls
  | some (.expr value) => value.walkable c raw

/-- A walk can go through the bindings of a declaration or, in the head of a loop, of the loop. -/
def walkableDeclarators (c : Demand) (raw loop : Bool) : List Declarator → Bool
  | [] => true
  | ⟨id, init⟩ :: rest =>
    (!c.declarations || c.meets loop id init || raw && id.splittable c) &&
      walkableExpr? c (raw && !c.leaves loop id init) init && walkableDeclarators c raw loop rest
end

end IndicatorCompiler.Script

namespace IndicatorCompiler.SlotForm

open Script

/-- The failures that a source can be blamed for; that a declaration is not ready is one unless
declarations are asked about. -/
def Cause.inSource (c : Demand) : Cause → Bool
  | contextAssignment | invalidDestructuring | misplacedRest => true
  | destructuringDeclaration => !c.declarations
  | invalidTarget | nothingToHoistBefore => false

end IndicatorCompiler.SlotForm
