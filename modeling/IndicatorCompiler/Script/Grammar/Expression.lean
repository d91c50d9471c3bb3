import IndicatorCompiler.Script.Stream
import IndicatorCompiler.Script.Syntax.Pattern

/-!
# Patterns, functions and expressions of the script

The grammar is recursive.  Each parser here takes the parsers for what is nested inside as `Nested`,
and uses them only after it has read a token, so the depth of nesting is at most the number of
tokens.
-/

namespace IndicatorCompiler.Script

/-- The parsers of nested phrases. -/
structure Nested where
  bindingTarget : Parser Pattern
  unary : Parser Expr
  /-- Operators that bind at least as tightly as a strength. -/
  binary : Nat → Parser Expr
  assignment : Parser Expr
  expression : Parser Expr
  statement : Parser Stmt

namespace Grammar

open IndicatorCompiler.Script.Parser

/-! ## Patterns -/

/-- `= value` after a target, if it is there. -/
def withDefault (nested : Nested) (target : Pattern) : Parser Pattern := do
  if ← eatPunct .eq then return .withDefault target (← nested.assignment)
  return target

/-- An element of a pattern: a rest element, or a target with an optional default. -/
def patternElement (nested : Nested) : Parser Pattern := do
  if ← eatPunct .ellipsis then return .rest (← nested.bindingTarget)
  withDefault nested (← nested.bindingTarget)

/-- An element of an array pattern; nothing stands in front of the comma of a hole. -/
def patternItem (nested : Nested) : Parser (Option Pattern) := do
  if ← atPunct .comma then return none
  return some (← patternElement nested)

/-- A property of an object pattern. -/
def patternProperty (nested : Nested) : Parser PatternProperty := do
  if ← eatPunct .ellipsis then return ⟨"", .rest (← nested.bindingTarget)⟩
  let key ← propertyName
  if ← eatPunct .colon then
    let target ← nested.bindingTarget
    return ⟨key, ← withDefault nested target⟩
  return ⟨key, ← withDefault nested (.ident key)⟩

/-- What a declaration or a parameter binds. -/
def bindingTarget (nested : Nested) : Parser Pattern := do
  match ← kind with
  | .punct .lBracket =>
    advance
    return .array (← commaItems .rBracket (patternItem nested))
  | .punct .lBrace =>
    advance
    return .object (← commaItems .rBrace (patternProperty nested))
  | _ => return .ident (← name)

/-! ## Functions -/

/-- Statements in braces. -/
def block (nested : Nested) : Parser (List Stmt) := do
  punct .lBrace
  let body ← Parsing.repeated do
    match ← kind with
    | .punct .rBrace => return none
    | .eof => refuse (.punct .rBrace)
    | _ => return some (← nested.statement)
  punct .rBrace
  return body

/-- Parameters in parentheses. -/
def params (nested : Nested) : Parser (List Pattern) := do
  punct .lParen
  commaItems .rParen (patternElement nested)

/-- Parameters and body of a function with a name or without. -/
def functionRest (nested : Nested) (name : Option String) : Parser Function := do
  let params ← params nested
  return ⟨name, params, .block (← block nested), false⟩

/-- A function in an expression, after `function`. -/
def functionExpr (nested : Nested) : Parser Expr := do
  let name ← match ← kind with
    | .ident _ => some <$> name
    | _ => pure none
  return .function (← functionRest nested name)

/-- Brackets `depth` deep close, and `=>` follows. -/
def closesBeforeArrow (depth : Nat) : List Token → Bool
  | [] => false
  | t :: rest =>
    match t.kind with
    | .punct .lParen | .punct .lBracket | .punct .lBrace => closesBeforeArrow (depth + 1) rest
    | .punct .rParen | .punct .rBracket | .punct .rBrace =>
      if depth ≤ 1 then rest.head?.any (·.kind == .punct .arrow)
      else closesBeforeArrow (depth - 1) rest
    | .eof => false
    | _ => closesBeforeArrow depth rest

/-- `x =>` or `( … ) =>` stands here. -/
def isArrowHead (tokens : List Token) : Bool :=
  match tokens with
  | [] => false
  | t :: rest =>
    match t.kind with
    | .ident name => name ∉ reservedWords && rest.head?.any (·.kind == .punct .arrow)
    | .punct .lParen => closesBeforeArrow 0 tokens
    | _ => false

/-- An arrow function. -/
def arrow (nested : Nested) : Parser Expr := do
  let params ← if ← atPunct .lParen then params nested else pure [.ident (← name)]
  punct .arrow
  let body ← if ← atPunct .lBrace then pure (.block (← block nested))
    else pure (.expr (← nested.assignment))
  return .function ⟨none, params, body, true⟩

/-! ## Atoms and what follows them -/

/-- An element of an array or an argument of a call. -/
def element (nested : Nested) : Parser Expr := do
  if ← eatPunct .ellipsis then return .spread (← nested.assignment)
  nested.assignment

/-- The key of a property. -/
def propertyKey (nested : Nested) : Parser PropertyKey := do
  match ← kind with
  | .ident name => advance; return .name name
  | .str value => advance; return .str value
  | .num value => advance; return .str value.literal
  | .punct .lBracket =>
    advance
    let key ← nested.assignment
    punct .rBracket
    return .computed key
  | _ => refuse .propertyKey

/-- A property of an object; a plain name may stand for itself. -/
def property (nested : Nested) : Parser Property := do
  let key ← propertyKey nested
  if ← eatPunct .colon then return ⟨key, ← nested.assignment, false⟩
  match key with
  | .name name => return ⟨key, .ident name, true⟩
  | _ => refuse (.punct .colon)

/-- A literal, a name, a function, or a phrase in brackets of some kind. -/
def primary (nested : Nested) : Parser Expr := do
  match ← kind with
  | .num value => advance; return .num value
  | .str value => advance; return .str value
  | .punct .lParen =>
    advance
    let value ← nested.expression
    punct .rParen
    return value
  | .punct .lBracket =>
    advance
    return .array (← commaItems .rBracket (element nested))
  | .punct .lBrace =>
    advance
    return .object (← commaItems .rBrace (property nested))
  | .ident "true" => advance; return .lit (.bool true)
  | .ident "false" => advance; return .lit (.bool false)
  | .ident "null" => advance; return .lit .null
  | .ident "function" =>
    advance
    functionExpr nested
  | .ident _ => return .ident (← name)
  | _ => refuse .expression

/-- What can follow an atom. -/
inductive Suffix where
  | member (name : String)
  | index (index : Expr)
  | call (args : List Expr)

/-- An expression with something after it. -/
def Suffix.apply (e : Expr) : Suffix → Expr
  | member name => .member e name
  | index i => .index e i
  | call args => .call e args

/-- One member access, by name or by index. -/
def access? (nested : Nested) : Parser (Option Suffix) := do
  match ← kind with
  | .punct .dot =>
    advance
    return some (.member (← propertyName))
  | .punct .lBracket =>
    advance
    let index ← nested.expression
    punct .rBracket
    return some (.index index)
  | _ => return none

/-- The arguments of a call. -/
def arguments (nested : Nested) : Parser (List Expr) := do
  punct .lParen
  commaItems .rParen (element nested)

/-- One member access or call. -/
def suffix? (nested : Nested) : Parser (Option Suffix) := do
  if ← atPunct .lParen then return some (.call (← arguments nested))
  access? nested

/-- `new` with its callee, which holds no calls, and its arguments, which may be missing. -/
def newExpr (nested : Nested) : Parser Expr := do
  let first ← primary nested
  let more ← Parsing.repeated (access? nested)
  let args ← if ← atPunct .lParen then arguments nested else pure []
  return .new (more.foldl Suffix.apply first) args

/-- An atom with its accesses and calls. -/
def suffixed (nested : Nested) : Parser Expr := do
  let first ← if ← eatWord "new" then newExpr nested else primary nested
  let more ← Parsing.repeated (suffix? nested)
  return more.foldl Suffix.apply first

/-! ## Operators -/

/-- `++` and `--` -/
def updateOp? : Kind → Option UpdateOp
  | .punct .plusPlus => some .increment
  | .punct .minusMinus => some .decrement
  | _ => none

/-- An atom with `++` or `--` after it. -/
def updated (nested : Nested) : Parser Expr := do
  let e ← suffixed nested
  match updateOp? (← kind) with
  | some op => advance; return .update op false e
  | none => return e

/-- Operators in front of an operand. -/
def unaryOp? : Kind → Option UnaryOp
  | .punct .bang => some .not
  | .punct .minus => some .neg
  | .punct .plus => some .plus
  | .ident "typeof" => some .typeOf
  | .ident "void" => some .void
  | .ident "delete" => some .delete
  | _ => none

/-- An operand with the operators in front of it. -/
def unary (nested : Nested) : Parser Expr := do
  match unaryOp? (← kind) with
  | some op => advance; return .unary op (← nested.unary)
  | none =>
    match updateOp? (← kind) with
    | some op => advance; return .update op true (← nested.unary)
    | none => updated nested

/-- Operators between two operands. -/
def binaryOp? : Kind → Option BinaryOp
  | .punct .plus => some .add
  | .punct .minus => some .sub
  | .punct .star => some .mul
  | .punct .slash => some .div
  | .punct .percent => some .mod
  | .punct .eqEq => some .eq
  | .punct .notEq => some .notEq
  | .punct .strictEq => some .strictEq
  | .punct .strictNotEq => some .strictNotEq
  | .punct .lt => some .lt
  | .punct .ltEq => some .ltEq
  | .punct .gt => some .gt
  | .punct .gtEq => some .gtEq
  | .punct .andAnd => some .and
  | .punct .orOr => some .or
  | .punct .nullish => some .nullish
  | _ => none

/-- An operator that binds at least as tightly as `least`, and its right operand, in which only
tighter operators stand. -/
def operation? (nested : Nested) (least : Nat) : Parser (Option (BinaryOp × Expr)) := do
  match binaryOp? (← kind) with
  | none => return none
  | some op =>
    if op.precedence < least then return none
    advance
    return some (op, ← nested.binary (op.precedence + 1))

/-- Operands with operators between them, grouped from the left. -/
def binary (nested : Nested) (least : Nat) : Parser Expr := do
  let first ← unary nested
  let more ← Parsing.repeated (operation? nested least)
  return more.foldl (fun left (op, right) => .binary op left right) first

/-- A choice between two values, or a single one. -/
def conditional (nested : Nested) : Parser Expr := do
  let test ← binary nested 0
  if ← eatPunct .question then
    let consequent ← nested.assignment
    punct .colon
    return .conditional test consequent (← nested.assignment)
  return test

/-- `=`, `+=`, … -/
def assignOp? : Kind → Option AssignOp
  | .punct .eq => some .assign
  | .punct .plusEq => some .add
  | .punct .minusEq => some .sub
  | .punct .starEq => some .mul
  | .punct .slashEq => some .div
  | .punct .percentEq => some .mod
  | _ => none

/-- Names and members can be assigned to; arrays and objects are patterns of plain assignments. -/
def isAssignable (op : AssignOp) : Expr → Bool
  | .ident _ | .member _ _ | .index _ _ => true
  | .array _ | .object _ => op = .assign
  | _ => false

/-- An arrow function, an assignment or a conditional. -/
def assignment (nested : Nested) : Parser Expr := do
  if isArrowHead (← get).rest then arrow nested
  else
    let target ← conditional nested
    match assignOp? (← kind) with
    | none => return target
    | some op =>
      unless isAssignable op target do refuse .assignable
      advance
      return .assign op target (← nested.assignment)

/-- Assignments with commas between them. -/
def expression (nested : Nested) : Parser Expr := do
  match ← Parsing.itemsOne (eatPunct .comma) (assignment nested) with
  | [only] => return only
  | items => return .sequence items

end Grammar

end IndicatorCompiler.Script
