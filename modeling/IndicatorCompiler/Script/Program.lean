import IndicatorCompiler.Script.Grammar.Statement
import IndicatorCompiler.Script.Token.Scan

/-!
# Reading scripts

A phrase is nested at most as deep as it has tokens, so parsers for that many levels of nesting read
every script.
-/

namespace IndicatorCompiler.Script

namespace Grammar

/-- The parsers of phrases with at most `depth` levels of nesting inside. -/
def nested : (depth : Nat) → Nested
  | 0 =>
    { bindingTarget := Parser.refuse .identifier
      unary := Parser.refuse .expression
      binary := fun _ => Parser.refuse .expression
      assignment := Parser.refuse .expression
      expression := Parser.refuse .expression
      statement := Parser.refuse .expression }
  | depth + 1 =>
    let inside := nested depth
    { bindingTarget := bindingTarget inside
      unary := unary inside
      binary := binary inside
      assignment := assignment inside
      expression := expression inside
      statement := statement inside }

/-- The statements of a script. -/
def program (inside : Nested) : Parser (List Stmt) :=
  Parsing.repeated do
    if ← Parser.at? .eof then return none
    return some (← statement inside)

end Grammar

/-- Read a script from tokens. -/
def Program.ofTokens (tokens : List Token) : Except ParseError Program := do
  let (body, _) ← (Grammar.program (Grammar.nested tokens.length)).run (.ofTokens tokens)
  return ⟨body⟩

/-- `-a;` -/
example : (Program.ofTokens ([Kind.punct .minus, .ident "a", .punct .semicolon, .eof].map
    (⟨·, 0, .start⟩))).map (·.body) = .ok [.expr (.unary .neg (.ident "a"))] :=
  rfl

/-- Read one expression from tokens; what follows it is left over. -/
def Expr.ofTokens (tokens : List Token) : Except ParseError (Expr × Stream) :=
  (Grammar.expression (Grammar.nested tokens.length)).run (.ofTokens tokens)

/-- Why a source is no script. -/
inductive SyntaxError where
  | lex (e : LexError)
  | parse (e : ParseError)
  deriving DecidableEq

namespace SyntaxError

/-- Where the error is. -/
def position : SyntaxError → Text.Position
  | lex e | parse e => e.position

/-- What is wrong and where. -/
def message : SyntaxError → String
  | lex e | parse e => e.message

end SyntaxError

/-- Read a script from source. -/
def Program.ofSource (source : String) : Except SyntaxError Program :=
  match scan source with
  | .error e => .error (.lex e)
  | .ok tokens =>
    match ofTokens tokens with
    | .error e => .error (.parse e)
    | .ok program => .ok program

end IndicatorCompiler.Script
