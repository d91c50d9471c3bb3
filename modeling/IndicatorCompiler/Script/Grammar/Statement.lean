import IndicatorCompiler.Script.Grammar.Expression

/-!
# Statements of the script

A statement is told by its first word.  The semicolon after a statement may be missing.
-/

namespace IndicatorCompiler.Script.Grammar

open IndicatorCompiler.Script.Parser

/-- The word of a declaration. -/
def varKind? : Kind → Option VarKind
  | .ident "var" => some .var
  | .ident "let" => some .lexical
  | .ident "const" => some .constant
  | _ => none

/-- Read the word of a declaration. -/
def varKind : Parser VarKind := do
  match varKind? (← kind) with
  | some kind => advance; return kind
  | none => refuse .declarationWord

/-- One binding of a declaration. -/
def declarator (nested : Nested) : Parser Declarator := do
  let id ← bindingTarget nested
  if ← eatPunct .eq then return ⟨id, some (← assignment nested)⟩
  return ⟨id, none⟩

/-- The bindings of a declaration. -/
def declarators (nested : Nested) : Parser (List Declarator) :=
  Parsing.itemsOne (eatPunct .comma) (declarator nested)

/-- A test in parentheses. -/
def test (nested : Nested) : Parser Expr := do
  punct .lParen
  let e ← nested.expression
  punct .rParen
  return e

/-- `if` with its branches. -/
def ifStmt (nested : Nested) : Parser Stmt := do
  word "if"
  let test ← test nested
  let consequent ← nested.statement
  let alternate ← if ← eatWord "else" then some <$> nested.statement else pure none
  return .ifElse test consequent alternate

/-! ## Loops -/

/-- `of` or `in`, if it is there. -/
def forEachKind? : Parser (Option ForEachKind) := do
  if ← eatWord "of" then return some .elements
  if ← eatWord "in" then return some .keys
  return none

/-- The collection and the body of a loop. -/
def forEachRest (nested : Nested) (each : ForEachKind) (kind : Option VarKind) (pattern : Pattern) :
    Parser Stmt := do
  let right ← assignment nested
  punct .rParen
  return .forEach each kind pattern right (← nested.statement)

/-- An expression up to a closing punctuator, if there is one. -/
def expressionBefore (nested : Nested) (close : Punct) : Parser (Option Expr) := do
  let e ← if ← atPunct close then pure none else some <$> expression nested
  punct close
  return e

/-- What follows the start of a counting loop. -/
def forRest (nested : Nested) (init : Option ForInit) : Parser Stmt := do
  punct .semicolon
  let test ← expressionBefore nested .semicolon
  let update ← expressionBefore nested .rParen
  return .forLoop init test update (← nested.statement)

/-- A loop that declares what it binds.  One binding and `of` or `in` make a loop over a collection;
otherwise the declaration is read again. -/
def forDeclared (nested : Nested) : Parser Stmt := do
  let kind ← varKind
  let saved ← get
  let pattern ← bindingTarget nested
  match ← forEachKind? with
  | some each => forEachRest nested each (some kind) pattern
  | none =>
    set saved
    forRest nested (some (.declare kind (← declarators nested)))

/-- A loop that starts with an expression. -/
def forAssigned (nested : Nested) : Parser Stmt := do
  let e ← expression nested
  match ← forEachKind? with
  | none => forRest nested (some (.expr e))
  | some each =>
    match e.toPattern? with
    | some pattern => forEachRest nested each none pattern
    | none => refuse .loopBinding

/-- `for` with its body. -/
def forStmt (nested : Nested) : Parser Stmt := do
  word "for"
  punct .lParen
  if (varKind? (← kind)).isSome then forDeclared nested
  else if ← atPunct .semicolon then forRest nested none
  else forAssigned nested

/-! ## Statements -/

/-- The value after `return`, if there is one. -/
def returned? (nested : Nested) : Parser (Option Expr) := do
  match ← kind with
  | .punct .semicolon | .punct .rBrace | .eof => return none
  | _ => return some (← expression nested)

/-- A statement of one word. -/
def wordStmt (stmt : Stmt) : Parser Stmt := do
  advance
  endStatement
  return stmt

/-- An expression as a statement. -/
def exprStmt (nested : Nested) : Parser Stmt := do
  let e ← expression nested
  endStatement
  return .expr e

/-- A declaration. -/
def varStmt (nested : Nested) : Parser Stmt := do
  let kind ← varKind
  let decls ← declarators nested
  endStatement
  return .var kind decls

/-- A statement. -/
def statement (nested : Nested) : Parser Stmt := do
  match ← kind with
  | .punct .semicolon => advance; return .empty
  | .punct .lBrace => return .block (← block nested)
  | .ident "var" | .ident "let" | .ident "const" => varStmt nested
  | .ident "function" =>
    advance
    let name ← name
    return .function (← functionRest nested (some name))
  | .ident "return" =>
    advance
    let value ← returned? nested
    endStatement
    return .ret value
  | .ident "if" => ifStmt nested
  | .ident "for" => forStmt nested
  | .ident "while" =>
    advance
    let test ← test nested
    return .whileLoop test (← nested.statement)
  | .ident "break" => wordStmt .breakLoop
  | .ident "continue" => wordStmt .continueLoop
  | _ => exprStmt nested

end IndicatorCompiler.Script.Grammar
