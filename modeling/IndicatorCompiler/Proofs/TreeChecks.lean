import IndicatorCompiler.Script.Syntax

/-!
# Checks of all functions and statements

A condition on single functions and single statements, asked of all those of a tree.
-/

namespace IndicatorCompiler.Script

/-- A condition on functions and on statements. -/
structure Check where
  function : Function → Bool
  stmt : Stmt → Bool

mutual
/-- All functions and statements in an expression pass. -/
def Expr.every (c : Check) : Expr → Bool
  | .ident _ | .lit _ => true
  | .array items => everyExpr c items
  | .object properties => everyProperty c properties
  | .function f => f.every c
  | .unary _ arg | .update _ _ arg => arg.every c
  | .binary _ left right => left.every c && right.every c
  | .assign _ target value => target.every c && value.every c
  | .conditional test consequent alternate =>
    test.every c && consequent.every c && alternate.every c
  | .call callee args | .new callee args => callee.every c && everyExpr c args
  | .member base _ => base.every c
  | .index base i => base.every c && i.every c
  | .sequence items => everyExpr c items
  | .spread arg => arg.every c

/-- Several expressions pass. -/
def everyExpr (c : Check) : List Expr → Bool
  | [] => true
  | e :: rest => e.every c && everyExpr c rest

/-- An expression passes, if there is one. -/
def everyExpr? (c : Check) : Option Expr → Bool
  | none => true
  | some e => e.every c

/-- Properties pass. -/
def everyProperty (c : Check) : List Property → Bool
  | [] => true
  | ⟨key, value, _⟩ :: rest => key.every c && value.every c && everyProperty c rest

/-- A key passes. -/
def PropertyKey.every (c : Check) : PropertyKey → Bool
  | .name _ | .str _ => true
  | .computed key => key.every c

/-- A function passes, and so do those in it. -/
def Function.every (c : Check) : Function → Bool
  | ⟨name, params, body, arrow⟩ =>
    c.function ⟨name, params, body, arrow⟩ && everyPattern c params && body.every c

/-- A function body passes. -/
def FunctionBody.every (c : Check) : FunctionBody → Bool
  | .block body => everyStmt c body
  | .expr value => value.every c

/-- A pattern passes. -/
def Pattern.every (c : Check) : Pattern → Bool
  | .ident _ => true
  | .array items => everyItem c items
  | .object properties => everyPatternProperty c properties
  | .withDefault target value => target.every c && value.every c
  | .rest target => target.every c

/-- Several patterns pass. -/
def everyPattern (c : Check) : List Pattern → Bool
  | [] => true
  | pattern :: rest => pattern.every c && everyPattern c rest

/-- The elements of a pattern pass. -/
def everyItem (c : Check) : List (Option Pattern) → Bool
  | [] => true
  | none :: rest => everyItem c rest
  | some pattern :: rest => pattern.every c && everyItem c rest

/-- The properties of a pattern pass. -/
def everyPatternProperty (c : Check) : List PatternProperty → Bool
  | [] => true
  | ⟨_, value⟩ :: rest => value.every c && everyPatternProperty c rest

/-- A statement passes, and so do those in it. -/
def Stmt.every (c : Check) : Stmt → Bool
  | .var kind decls => c.stmt (.var kind decls) && everyDeclarator c decls
  | .function f => c.stmt (.function f) && f.every c
  | .ret value => c.stmt (.ret value) && everyExpr? c value
  | .ifElse test consequent alternate =>
    c.stmt (.ifElse test consequent alternate) && test.every c && consequent.every c &&
      (match alternate with
        | none => true
        | some stmt => stmt.every c)
  | .forLoop init test update body =>
    c.stmt (.forLoop init test update body) && (match init with
        | none => true
        | some init => init.every c) &&
      everyExpr? c test && everyExpr? c update && body.every c
  | .forEach each kind pattern right body =>
    c.stmt (.forEach each kind pattern right body) && pattern.every c && right.every c &&
      body.every c
  | .whileLoop test body => c.stmt (.whileLoop test body) && test.every c && body.every c
  | .block body => c.stmt (.block body) && everyStmt c body
  | .expr value => c.stmt (.expr value) && value.every c
  | .breakLoop => c.stmt .breakLoop
  | .continueLoop => c.stmt .continueLoop
  | .empty => c.stmt .empty

/-- Statements pass, and so do those in them. -/
def everyStmt (c : Check) : List Stmt → Bool
  | [] => true
  | stmt :: rest => stmt.every c && everyStmt c rest

/-- Bindings pass. -/
def everyDeclarator (c : Check) : List Declarator → Bool
  | [] => true
  | ⟨id, init⟩ :: rest => id.every c && everyExpr? c init && everyDeclarator c rest

/-- What a loop starts with passes. -/
def ForInit.every (c : Check) : ForInit → Bool
  | .declare _ decls => everyDeclarator c decls
  | .expr value => value.every c
end

end IndicatorCompiler.Script
