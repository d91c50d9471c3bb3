import IndicatorCompiler.Pine.Stream
import IndicatorCompiler.Pine.Syntax.Branches

/-!
# Types and expressions of the indicator language

The grammar is recursive: an expression can stand in parentheses, a block inside a value.  Each
parser here takes the parsers for what is nested inside as `Nested`, and uses them only after it has
read a token.  So the depth of nesting is at most the number of tokens.
-/

namespace IndicatorCompiler.Pine

/-- The parsers of nested phrases. -/
structure Nested where
  type : Parser TypeRef
  unary : Parser Expr
  expression : Parser Expr
  value : Parser Expr
  statement : Parser Stmt

namespace Grammar

open IndicatorCompiler.Pine.Parser

/-! ## Types -/

/-- A qualifier, if there is one. -/
def qualifier? : Parser (Option Qualifier) := do
  match ← kind with
  | .keyword .constWord => advance; return some .constant
  | .keyword .simpleWord => advance; return some .simple
  | .keyword .seriesWord => advance; return some .series
  | _ => return none

/-- `.name` after a name. -/
def dottedStep : Parser (Option String) := do
  match ← kind, ← following with
  | .symbol .dot, .ident name =>
    advance
    advance
    return some name
  | _, _ => return none

/-- `<T, U>` -/
def typeArgs (nested : Nested) : Parser (List TypeRef) := do
  symbol .lt
  let args ← commaItemsOne nested.type
  symbol .gt
  return args

/-- `[]` after a type. -/
def arrayMark : Parser Bool := do
  match ← kind, ← following with
  | .symbol .lBracket, .symbol .rBracket =>
    advance
    advance
    return true
  | _, _ => return false

/-- A type without a qualifier: a dotted name, type arguments, the mark of an array. -/
def type (nested : Nested) : Parser TypeRef := do
  let first ← identifier
  let more ← Parsing.repeated dottedStep
  let args ← if ← at? (.symbol .lt) then typeArgs nested else pure []
  let array ← arrayMark
  return ⟨none, more.foldl (fun path name => path ++ "." ++ name) first, args, array⟩

/-! ## Atoms and what follows them -/

/-- An argument of a call. -/
def argument (nested : Nested) : Parser Argument := do
  match ← kind, ← following with
  | .ident name, .symbol .eq =>
    advance
    advance
    return ⟨some name, ← nested.value⟩
  | _, _ => return ⟨none, ← nested.value⟩

/-- The arguments of a call, after its opening parenthesis. -/
def arguments (nested : Nested) : Parser (List Argument) := do
  let args ← commaItems (.symbol .rParen) (argument nested)
  need (.symbol .rParen) .callEnd
  return args

/-- A literal, a name, a phrase in parentheses or a tuple. -/
def atom (nested : Nested) : Parser Expr := do
  match ← kind with
  | .ident name =>
    advance
    -- `na` in front of a parenthesis is the function of that name
    if name == "na" && !(← at? (.symbol .lParen)) then return .na
    return .ident name
  | .int value => advance; return .int value
  | .float value => advance; return .float value
  | .str value => advance; return .str value
  | .color text => advance; return .color text
  | .keyword .trueWord => advance; return .bool true
  | .keyword .falseWord => advance; return .bool false
  | .symbol .lParen =>
    advance
    let value ← nested.value
    symbol .rParen
    return value
  | .symbol .lBracket =>
    advance
    let values ← commaItems (.symbol .rBracket) nested.expression
    symbol .rBracket
    return .tuple values
  | _ => refuse .expression

/-- What can follow an atom. -/
inductive Suffix where
  | call (typeArgs : List TypeRef) (args : List Argument)
  | history (offset : Expr)
  | member (property : String)

/-- An expression with something after it. -/
def Suffix.apply (e : Expr) : Suffix → Expr
  | call typeArgs args => .call e typeArgs args
  | history offset => .history e offset
  | member property => .member e property

/-- Type arguments, if a call follows them. -/
def callTypeArgs? (nested : Nested) : Parser (Option (List TypeRef)) :=
  Parsing.attempt do
    let args ← typeArgs nested
    if ← at? (.symbol .lParen) then return some args
    return none

/-- One call, history access or member access. -/
def suffix? (nested : Nested) : Parser (Option Suffix) := do
  match ← kind with
  | .symbol .lParen =>
    advance
    return some (.call [] (← arguments nested))
  | .symbol .lt =>
    match ← callTypeArgs? nested with
    | none => return none
    | some typeArgs =>
      symbol .lParen
      return some (.call typeArgs (← arguments nested))
  | .symbol .lBracket =>
    advance
    let offset ← nested.expression
    need (.symbol .rBracket) .historyEnd
    return some (.history offset)
  | .symbol .dot =>
    advance
    match ← kind with
    | .ident name => advance; return some (.member name)
    | .keyword k => advance; return some (.member k.text)
    | _ => refuse .memberName
  | _ => return none

/-- An atom with its calls and accesses. -/
def suffixed (nested : Nested) : Parser Expr := do
  let first ← atom nested
  let more ← Parsing.repeated (suffix? nested)
  return more.foldl Suffix.apply first

/-! ## Operators -/

/-- Signs and negation. -/
def unary (nested : Nested) : Parser Expr := do
  match ← kind with
  | .symbol .minus => advance; return .unary .neg (← nested.unary)
  | .symbol .plus => advance; return .unary .plus (← nested.unary)
  | .keyword .not => advance; return .unary .not (← nested.unary)
  | _ => suffixed nested

/-- Operands with operators of one strength between them, grouped from the left. -/
def leftGrouped (operator? : Kind → Option BinaryOp) (operand : Parser Expr) : Parser Expr := do
  let first ← operand
  let more ← Parsing.repeated do
    match operator? (← kind) with
    | none => return none
    | some op =>
      advance
      return some (op, ← operand)
  return more.foldl (fun left (op, right) => .binary op left right) first

/-- `*`, `/`, `%` -/
def multiplicative? : Kind → Option BinaryOp
  | .symbol .star => some .mul
  | .symbol .slash => some .div
  | .symbol .percent => some .mod
  | _ => none

/-- `+`, `-` -/
def additive? : Kind → Option BinaryOp
  | .symbol .plus => some .add
  | .symbol .minus => some .sub
  | _ => none

/-- `<`, `<=`, `>`, `>=` -/
def comparison? : Kind → Option BinaryOp
  | .symbol .lt => some .lt
  | .symbol .ltEq => some .ltEq
  | .symbol .gt => some .gt
  | .symbol .gtEq => some .gtEq
  | _ => none

/-- `==`, `!=` -/
def equality? : Kind → Option BinaryOp
  | .symbol .eqEq => some .eq
  | .symbol .notEq => some .notEq
  | _ => none

/-- `and` -/
def conjunction? : Kind → Option BinaryOp
  | .keyword .and => some .and
  | _ => none

/-- `or` -/
def disjunction? : Kind → Option BinaryOp
  | .keyword .or => some .or
  | _ => none

/-- An expression without a ternary at its top: six strengths of operators, the tightest first. -/
def operation (nested : Nested) : Parser Expr :=
  leftGrouped disjunction? <| leftGrouped conjunction? <| leftGrouped equality? <|
    leftGrouped comparison? <| leftGrouped additive? <| leftGrouped multiplicative? (unary nested)

/-- An expression. -/
def expression (nested : Nested) : Parser Expr := do
  let test ← operation nested
  if ← eat (.symbol .question) then
    let consequent ← nested.expression
    need (.symbol .colon) .ternaryColon
    let alternate ← nested.expression
    return .ternary test consequent alternate
  return test

end Grammar

end IndicatorCompiler.Pine
