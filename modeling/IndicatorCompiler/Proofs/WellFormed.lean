import IndicatorCompiler.Proofs.Lexing
import IndicatorCompiler.Script.Grammar.Statement

/-!
# Well-formed scripts

The trees of a script can hold more than a source can say: names with blanks in them, negative
literals, spreads in the middle of a sum.  `WellFormed` tells the trees that a parser makes from the
others.
-/

namespace IndicatorCompiler.Script

/-- A name that can be bound. -/
def BindingName (name : String) : Prop := isName name = true ∧ name ∉ reservedWords

/-- Literals have no sign. -/
def Literal.WellFormed : Literal → Prop
  | .num value => (∃ x, value = .finite false x) ∨ value = .infinite false
  | _ => True

/-- The pattern is a rest element. -/
def Pattern.isRest : Pattern → Bool
  | .rest _ => true
  | _ => false

/-- The pattern has a default. -/
def Pattern.hasDefault : Pattern → Bool
  | .withDefault _ _ => true
  | _ => false

/-- A declaration has a name and a body in braces. -/
def Function.isDeclaration : Function → Bool
  | ⟨some _, _, _, false⟩ => true
  | _ => false

mutual
/-- The expression can be read; spreads stand between commas only. -/
def Expr.WellFormed (asElement : Bool) : Expr → Prop
  | .ident name => BindingName name
  | .lit value => value.WellFormed
  | .array items => exprsWellFormed true items
  | .object properties => propertiesWellFormed properties
  | .function f => f.WellFormed
  | .unary _ arg | .update _ _ arg => arg.WellFormed false
  | .binary _ left right => left.WellFormed false ∧ right.WellFormed false
  | .assign op target value =>
    Grammar.isAssignable op target = true ∧ target.WellFormed false ∧ value.WellFormed false
  | .conditional test consequent alternate =>
    test.WellFormed false ∧ consequent.WellFormed false ∧ alternate.WellFormed false
  | .call callee args | .new callee args => callee.WellFormed false ∧ exprsWellFormed true args
  | .member base name => base.WellFormed false ∧ isName name = true
  | .index base i => base.WellFormed false ∧ i.WellFormed false
  | .sequence items => 2 ≤ items.length ∧ exprsWellFormed false items
  | .spread arg => asElement = true ∧ arg.WellFormed false

/-- The expressions can be read. -/
def exprsWellFormed (asElement : Bool) : List Expr → Prop
  | [] => True
  | e :: rest => e.WellFormed asElement ∧ exprsWellFormed asElement rest

/-- The properties can be read; a name that stands for itself may be any word. -/
def propertiesWellFormed : List Property → Prop
  | [] => True
  | ⟨key, value, shorthand⟩ :: rest =>
    (if shorthand then ∃ name, isName name = true ∧ key = .name name ∧ value = .ident name
      else key.WellFormed ∧ value.WellFormed false) ∧ propertiesWellFormed rest

/-- The key can be read. -/
def PropertyKey.WellFormed : PropertyKey → Prop
  | .name name => isName name = true
  | .str _ => True
  | .computed key => key.WellFormed false

/-- The function can be read: arrows have no name, other functions have a body in braces. -/
def Function.WellFormed : Function → Prop
  | ⟨name, params, body, arrow⟩ =>
    (if arrow then name = none else ∀ w ∈ name, BindingName w) ∧ paramsWellFormed params ∧
      body.WellFormed arrow

/-- The function body can be read. -/
def FunctionBody.WellFormed (arrow : Bool) : FunctionBody → Prop
  | .block body => stmtsWellFormed body
  | .expr value => arrow = true ∧ value.WellFormed false

/-- The pattern can be read where a declaration or, if not `declared`, an assignment binds it.
`key` is a name that may stand for itself even if it is reserved. -/
def Pattern.WellFormed (declared asElement : Bool) (key : Option String) : Pattern → Prop
  | .ident name => isName name = true ∧ (some name = key ∨ name ∉ reservedWords)
  | .array items => patternItemsWellFormed declared items
  | .object properties => patternPropertiesWellFormed declared properties
  | .withDefault target value =>
    (declared = true → asElement = true) ∧ target.hasDefault = false ∧
      target.WellFormed declared false key ∧ value.WellFormed false
  | .rest target => asElement = true ∧ target.WellFormed declared false none

/-- The parameters can be read. -/
def paramsWellFormed : List Pattern → Prop
  | [] => True
  | pattern :: rest => pattern.WellFormed true true none ∧ paramsWellFormed rest

/-- The elements can be read; only a declaration has holes. -/
def patternItemsWellFormed (declared : Bool) : List (Option Pattern) → Prop
  | [] => True
  | none :: rest => declared = true ∧ patternItemsWellFormed declared rest
  | some pattern :: rest =>
    pattern.WellFormed declared true none ∧ patternItemsWellFormed declared rest

/-- The properties can be read; only a declaration has a rest element and keys that are words. -/
def patternPropertiesWellFormed (declared : Bool) : List PatternProperty → Prop
  | [] => True
  | ⟨key, value⟩ :: rest =>
    (if value.isRest then key = "" else declared = true → isName key = true) ∧
      value.WellFormed declared declared (some key) ∧ patternPropertiesWellFormed declared rest

/-- The statement can be read. -/
def Stmt.WellFormed : Stmt → Prop
  | .var _ decls => decls ≠ [] ∧ declaratorsWellFormed decls
  | .function f => f.isDeclaration = true ∧ f.WellFormed
  | .ret value => optionWellFormed value
  | .ifElse test consequent alternate =>
    test.WellFormed false ∧ consequent.WellFormed ∧ elseWellFormed alternate
  | .forLoop init test update body =>
    initWellFormed init ∧ optionWellFormed test ∧ optionWellFormed update ∧ body.WellFormed
  | .forEach _ kind pattern right body =>
    pattern.WellFormed kind.isSome false none ∧ right.WellFormed false ∧ body.WellFormed
  | .whileLoop test body => test.WellFormed false ∧ body.WellFormed
  | .breakLoop => True
  | .continueLoop => True
  | .block body => stmtsWellFormed body
  | .expr value => value.WellFormed false
  | .empty => True

/-- What follows `else` can be read. -/
def elseWellFormed : Option Stmt → Prop
  | none => True
  | some stmt => stmt.WellFormed

/-- The statements can be read. -/
def stmtsWellFormed : List Stmt → Prop
  | [] => True
  | stmt :: rest => stmt.WellFormed ∧ stmtsWellFormed rest

/-- The bindings can be read. -/
def declaratorsWellFormed : List Declarator → Prop
  | [] => True
  | ⟨id, init⟩ :: rest =>
    id.WellFormed true false none ∧ optionWellFormed init ∧ declaratorsWellFormed rest

/-- What a loop starts with can be read. -/
def initWellFormed : Option ForInit → Prop
  | none => True
  | some (.declare _ decls) => decls ≠ [] ∧ declaratorsWellFormed decls
  | some (.expr value) => value.WellFormed false

/-- The expression can be read, if there is one. -/
def optionWellFormed : Option Expr → Prop
  | none => True
  | some e => e.WellFormed false
end

end IndicatorCompiler.Script
