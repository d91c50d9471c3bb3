import IndicatorCompiler.Pine.Grammar.Statement
import IndicatorCompiler.Pine.Token.Scan

/-!
# Reading indicator programs

A phrase is nested at most as deep as it has tokens, so parsers for that many levels of nesting read
every program.
-/

namespace IndicatorCompiler.Pine

namespace Grammar

/-- The parsers of phrases with at most `depth` levels of nesting inside. -/
def nested : (depth : Nat) → Nested
  | 0 =>
    { type := Parser.refuse .identifier
      unary := Parser.refuse .expression
      expression := Parser.refuse .expression
      value := Parser.refuse .expression
      statement := Parser.refuse .expression }
  | depth + 1 =>
    let inside := nested depth
    { type := type inside
      unary := unary inside
      expression := expression inside
      value := value inside
      statement := statement inside }

/-- The statements of a program. -/
def program (inside : Nested) : Parser (List Stmt) :=
  Parsing.repeated do
    Parser.skipNewlines
    if ← Parser.at? .eof then return none
    return some (← statement inside)

end Grammar

/-- Read a program from tokens. -/
def Program.ofTokens (tokens : List Token) : Except ParseError Program := do
  let (body, _) ← (Grammar.program (Grammar.nested tokens.length)).run (.ofTokens tokens)
  return ⟨body⟩

/-- Read one expression from tokens; what follows it is left over. -/
def Expr.ofTokens (tokens : List Token) : Except ParseError (Expr × Stream) :=
  (Grammar.expression (Grammar.nested tokens.length)).run (.ofTokens tokens)

/-- Why a source is no program. -/
inductive SyntaxError where
  | lex (e : LexError)
  | parse (e : ParseError)
  deriving DecidableEq

namespace SyntaxError

/-- Where the error is. -/
def position : SyntaxError → Text.Position
  | lex e | parse e => e.position

/-- What is wrong and where. -/
def message : SyntaxError → String
  | lex e | parse e => e.message

end SyntaxError

/-- Read a program from source. -/
def Program.ofSource (source : String) : Except SyntaxError Program :=
  match scan source with
  | .error e => .error (.lex e)
  | .ok tokens =>
    match ofTokens tokens with
    | .error e => .error (.parse e)
    | .ok program => .ok program

end IndicatorCompiler.Pine
