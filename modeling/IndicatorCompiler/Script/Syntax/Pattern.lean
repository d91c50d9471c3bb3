import IndicatorCompiler.Script.Syntax

/-!
# Binding patterns

The names that a pattern binds, and the reading of an expression as a pattern, which a destructuring
assignment and a loop over existing bindings need.
-/

namespace IndicatorCompiler.Script

mutual
/-- Every name that a pattern binds, in source order. -/
def Pattern.boundNames : Pattern → List String
  | .ident name => [name]
  | .array items => boundInItems items
  | .object properties => boundInProperties properties
  | .withDefault target _ | .rest target => target.boundNames

/-- The names bound by the elements of an array pattern. -/
def boundInItems : List (Option Pattern) → List String
  | [] => []
  | none :: rest => boundInItems rest
  | some item :: rest => item.boundNames ++ boundInItems rest

/-- The names bound by the properties of an object pattern. -/
def boundInProperties : List PatternProperty → List String
  | [] => []
  | ⟨_, value⟩ :: rest => value.boundNames ++ boundInProperties rest
end

mutual
/-- An expression read as a pattern: names, arrays, objects without computed keys, plain assignments
as defaults and spreads as rest elements. -/
def Expr.toPattern? : Expr → Option Pattern
  | .ident name => some (.ident name)
  | .array items => (patternItems? items).map .array
  | .object properties => (patternProperties? properties).map .object
  | .assign .assign target value => target.toPattern?.map (.withDefault · value)
  | .spread arg => arg.toPattern?.map .rest
  | _ => none

/-- Expressions read as elements of an array pattern. -/
def patternItems? : List Expr → Option (List (Option Pattern))
  | [] => some []
  | item :: rest => do
    let item ← item.toPattern?
    let rest ← patternItems? rest
    return some item :: rest

/-- Properties read as properties of an object pattern. -/
def patternProperties? : List Property → Option (List PatternProperty)
  | [] => some []
  | ⟨.name key, value, _⟩ :: rest | ⟨.str key, value, _⟩ :: rest => do
    let value ← value.toPattern?
    let rest ← patternProperties? rest
    return ⟨key, value⟩ :: rest
  | ⟨.computed _, _, _⟩ :: _ => none
end

end IndicatorCompiler.Script
