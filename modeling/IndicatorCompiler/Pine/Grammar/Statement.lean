import IndicatorCompiler.Pine.Grammar.Expression

/-!
# Statements of the indicator language

Statements start with a reserved word, or are told apart by looking ahead: a declaration has `=`
behind its name, a function has `=>` behind its parameters.
-/

namespace IndicatorCompiler.Pine.Grammar

open IndicatorCompiler.Pine.Parser

/-! ## Values -/

/-- An indented block of statements. -/
def block (nested : Nested) : Parser (List Stmt) :=
  indented nested.statement .newlineBeforeBlock .block

/-- The test and the body of a branch. -/
def branch (nested : Nested) : Parser Branch := do
  let test ← expression nested
  return ⟨test, ← block nested⟩

/-- `else if` and `else`, as long as they follow. -/
def elseParts (nested : Nested) : (fuel : Nat) → Parser (List Branch × Option (List Stmt))
  | 0 => return ([], none)
  | fuel + 1 => do
    if ← eat (.keyword .elseWord) then
      if ← eat (.keyword .ifWord) then
        let next ← branch nested
        let (more, last) ← elseParts nested fuel
        return (next :: more, last)
      return ([], some (← block nested))
    return ([], none)

/-- `if` with its branches and its `else`. -/
def ifParts (nested : Nested) : Parser (Branch × List Branch × Option (List Stmt)) := do
  keyword .ifWord
  let first ← branch nested
  let (more, last) ← elseParts nested (← Parsing.budget)
  return (first, more, last)

/-- The operator of a reassignment. -/
def assignOp? : Kind → Option AssignOp
  | .symbol .colonEq => some .assign
  | .symbol .plusEq => some .add
  | .symbol .minusEq => some .sub
  | .symbol .starEq => some .mul
  | .symbol .slashEq => some .div
  | .symbol .percentEq => some .mod
  | _ => none

/-- A name or a member can be assigned to. -/
def isAssignable : Expr → Bool
  | .ident _ => true
  | .member _ _ => true
  | _ => false

/-- An expression, or a reassignment. -/
def simpleStatement (nested : Nested) : Parser StmtKind := do
  let target ← expression nested
  match assignOp? (← kind) with
  | none => return .expr target
  | some op =>
    unless isAssignable target do refuse .assignable
    advance
    return .reassign target op (← nested.value)

/-- A case of a `switch`. -/
def switchCase (nested : Nested) : Parser Case := do
  let start ← line
  let test ← if ← eat (.symbol .fatArrow) then pure none else do
    let test ← expression nested
    need (.symbol .fatArrow) .caseArrow
    pure (some test)
  match ← kind with
  | .newline => return ⟨test, ← block nested⟩
  | .keyword .ifWord | .keyword .switchWord =>
    let value ← nested.value
    endStatement
    return ⟨test, [⟨.expr value, start⟩]⟩
  | _ =>
    let body ← simpleStatement nested
    endStatement
    return ⟨test, [⟨body, start⟩]⟩

/-- `switch` with its cases. -/
def switch (nested : Nested) : Parser Expr := do
  keyword .switchWord
  let discriminant ← if ← at? .newline then pure none else some <$> expression nested
  let cases ← indented (switchCase nested) .newlineAfterSwitch .switchCases
  return switchValue discriminant cases

/-- The right-hand side of a declaration: an expression, or `if` or `switch` as a value. -/
def value (nested : Nested) : Parser Expr := do
  match ← kind with
  | .keyword .ifWord =>
    let (first, more, last) ← ifParts nested
    return ifValue (first :: more) last
  | .keyword .switchWord => switch nested
  | _ => expression nested

/-! ## Declarations -/

/-- The head of a declaration that names a qualifier or a type: everything up to its `=`. -/
structure TypedHead where
  qualifier : Option Qualifier
  type : Option TypeRef
  name : String

/-- A typed head, if one stands here and `=` follows it. -/
def typedHead? (nested : Nested) : Parser (Option TypedHead) :=
  Parsing.attempt do
    let qualifier ← qualifier?
    match qualifier, ← kind, ← following with
    | some _, .ident name, .symbol .eq =>
      advance
      return some ⟨qualifier, none, name⟩
    | _, _, _ =>
      let type ← type nested
      match ← kind, ← following with
      | .ident name, .symbol .eq =>
        advance
        return some ⟨qualifier, some { type with qualifier := qualifier }, name⟩
      | _, _ => return none

/-- `= value` and the end of the declaration. -/
def initialValue (nested : Nested) : Parser Expr := do
  symbol .eq
  let init ← value nested
  endStatement
  return init

/-- A declaration after `var` or `varip`. -/
def persistentDecl (nested : Nested) (mode : DeclMode) : Parser StmtKind := do
  match ← typedHead? nested with
  | some head => return .varDecl mode head.type (.name head.name) (← initialValue nested)
  | none =>
    let name ← identifier
    return .varDecl mode none (.name name) (← initialValue nested)

/-- The mode of a declaration without `var`. -/
def plainMode : Option Qualifier → DeclMode
  | some .constant => .constant
  | _ => .plain

/-- A declaration, a reassignment or an expression. -/
def declarationOrExpression (nested : Nested) : Parser StmtKind := do
  match ← typedHead? nested with
  | some head =>
    return .varDecl (plainMode head.qualifier) head.type (.name head.name) (← initialValue nested)
  | none =>
    match ← kind, ← following with
    | .ident name, .symbol .eq =>
      advance
      return .varDecl .plain none (.name name) (← initialValue nested)
    | _, _ =>
      let stmt ← simpleStatement nested
      endStatement
      return stmt

/-- Tokens after `[` that are names with commas between them, then `]` and `=`. -/
def isTupleHead : List Token → Bool
  | ⟨.ident _, _, _, _, _⟩ :: ⟨.symbol .comma, _, _, _, _⟩ :: rest => isTupleHead rest
  | ⟨.ident _, _, _, _, _⟩ :: ⟨.symbol .rBracket, _, _, _, _⟩ :: ⟨.symbol .eq, _, _, _, _⟩ :: _ =>
    true
  | _ => false

/-- `[a, b] = value` -/
def tupleDecl (nested : Nested) : Parser StmtKind := do
  symbol .lBracket
  let names ← commaItemsOne identifier
  symbol .rBracket
  return .varDecl .plain none (.tuple names) (← initialValue nested)

/-! ## Functions and types -/

/-- Brackets `depth` deep close on this line, and `=>` follows. -/
def closesBeforeArrow (depth : Nat) : List Token → Bool
  | [] => false
  | t :: rest =>
    match t.kind with
    | .symbol .lParen | .symbol .lBracket => closesBeforeArrow (depth + 1) rest
    | .symbol .rParen | .symbol .rBracket =>
      if depth ≤ 1 then rest.head?.any (·.kind == .symbol .fatArrow)
      else closesBeforeArrow (depth - 1) rest
    | .eof | .newline => false
    | _ => closesBeforeArrow depth rest

/-- A name with parameters and `=>` after it. -/
def isFunctionHead : List Token → Bool
  | ⟨.ident _, _, _, _, _⟩ :: ⟨.symbol .lParen, start, stop, p, indent⟩ :: rest =>
    closesBeforeArrow 0 (⟨.symbol .lParen, start, stop, p, indent⟩ :: rest)
  | _ => false

/-- A name that one of these tokens follows is a type. -/
def isAfterType : Kind → Bool
  | .ident _ | .symbol .dot | .symbol .lt | .symbol .lBracket => true
  | _ => false

/-- `= default`, if it is there. -/
def default? (nested : Nested) : Parser (Option Expr) := do
  if ← eat (.symbol .eq) then return some (← expression nested)
  return none

/-- A parameter: qualifier, type, name and default. -/
def param (nested : Nested) : Parser Param := do
  let qualifier ← qualifier?
  let type ← match ← kind, ← following with
    | .ident _, next =>
      if isAfterType next then
        let type ← type nested
        pure (some { type with qualifier := qualifier })
      else pure none
    | _, _ => pure none
  let name ← identifier
  return ⟨name, type, ← default? nested⟩

/-- `name(params) => body` -/
def functionDecl (nested : Nested) (kind : FunctionKind) (exported : Bool) : Parser StmtKind := do
  let start ← line
  let name ← identifier
  symbol .lParen
  let params ← commaItems (.symbol .rParen) (param nested)
  symbol .rParen
  symbol .fatArrow
  if ← at? .newline then
    let body ← block nested
    return .function name kind params (functionBody body) exported
  let result ← value nested
  endStatement
  return .function name kind params (functionBody [⟨.expr result, start⟩]) exported

/-- `method name(params) => body` -/
def methodDecl (nested : Nested) (exported : Bool) : Parser StmtKind := do
  keyword .methodWord
  functionDecl nested .method exported

/-- A field of a type: qualifier, type, name and default. -/
def field (nested : Nested) : Parser Field := do
  let qualifier ← qualifier?
  let type ← type nested
  let name ← identifier
  let default ← default? nested
  endStatement
  return ⟨name, { type with qualifier := qualifier }, default⟩

/-- `type Name` and its fields. -/
def typeDecl (nested : Nested) (exported : Bool) : Parser StmtKind := do
  keyword .typeWord
  let name ← identifier
  let fields ← indented (field nested) .newlineAfterType .typeFields
  return .typeDecl name fields exported

/-- What can stand after `export`. -/
def exportDecl (nested : Nested) : Parser StmtKind := do
  keyword .exportWord
  match ← kind with
  | .keyword .typeWord => typeDecl nested true
  | .keyword .methodWord => methodDecl nested true
  | _ =>
    if isFunctionHead (← get).rest then functionDecl nested .function true
    else refuse .exportable

/-! ## Control flow -/

/-- `if` for effect. -/
def ifStmt (nested : Nested) : Parser StmtKind := do
  let start ← line
  let (first, more, last) ← ifParts nested
  return nestedIf start first more (last.getD [])

/-- The collection and the body of a loop over a collection. -/
def forInRest (nested : Nested) (target : ForTarget) : Parser StmtKind := do
  let iterable ← expression nested
  return .forIn target iterable (← block nested)

/-- `for` over a range or a collection. -/
def forStmt (nested : Nested) : Parser StmtKind := do
  keyword .forWord
  if ← eat (.symbol .lBracket) then
    let index ← identifier
    symbol .comma
    let value ← identifier
    symbol .rBracket
    keyword .inWord
    forInRest nested (.pair index value)
  else
    let counter ← identifier
    if ← eat (.keyword .inWord) then forInRest nested (.name counter)
    else
      need (.symbol .eq) .loopRange
      let start ← expression nested
      need (.ident "to") (.word "to")
      let stop ← expression nested
      let step ← if ← eat (.ident "by") then some <$> expression nested else pure none
      return .forRange counter start stop step (← block nested)

/-- `while` and its body. -/
def whileStmt (nested : Nested) : Parser StmtKind := do
  keyword .whileWord
  let test ← expression nested
  return .whileLoop test (← block nested)

/-- A statement of one word. -/
def wordStmt (stmt : StmtKind) : Parser StmtKind := do
  advance
  endStatement
  return stmt

/-- What a statement is. -/
def statementKind (nested : Nested) : Parser StmtKind := do
  match ← kind with
  | .keyword .ifWord => ifStmt nested
  | .keyword .forWord => forStmt nested
  | .keyword .whileWord => whileStmt nested
  | .keyword .switchWord => return .expr (← switch nested)
  | .keyword .varWord =>
    advance
    persistentDecl nested .var
  | .keyword .varipWord =>
    advance
    persistentDecl nested .varip
  | .keyword .typeWord => typeDecl nested false
  | .keyword .methodWord => methodDecl nested false
  | .keyword .exportWord => exportDecl nested
  | .keyword .importWord => refuse .supportedStatement
  | .keyword .breakWord => wordStmt .breakLoop
  | .keyword .continueWord => wordStmt .continueLoop
  | .symbol .lBracket =>
    if isTupleHead (← get).rest.tail then tupleDecl nested else declarationOrExpression nested
  | .ident _ =>
    if isFunctionHead (← get).rest then functionDecl nested .function false
    else declarationOrExpression nested
  | _ => declarationOrExpression nested

/-- A statement. -/
def statement (nested : Nested) : Parser Stmt := do
  let start ← line
  return ⟨← statementKind nested, start⟩

end IndicatorCompiler.Pine.Grammar
