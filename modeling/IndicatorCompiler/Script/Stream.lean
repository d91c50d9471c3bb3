import IndicatorCompiler.Parsing
import IndicatorCompiler.Script.Token

/-!
# Streams of script tokens

Reserved words are names to the scanner.  The parsers of this module tell them apart by spelling,
and only where a name is to be bound or read, so that they stay usable as names of properties.
-/

namespace IndicatorCompiler.Script

open Text (Position)

/-- Words that name no binding. -/
def reservedWords : List String :=
  ["var", "let", "const", "function", "return", "if", "else", "for", "while", "break", "continue",
    "new", "typeof", "void", "delete", "true", "false", "null", "in", "of"]

/-- What a parser can expect. -/
inductive Expected where
  | identifier
  | propertyName
  | propertyKey
  | expression
  | punct (p : Punct)
  | word (word : String)
  | declarationWord
  | loopBinding
  | assignable
  deriving DecidableEq, Repr

/-- The expectation in words. -/
def Expected.text : Expected → String
  | identifier => "identifier"
  | propertyName => "property name"
  | propertyKey => "property key"
  | expression => "expression"
  | punct p => "`" ++ p.text ++ "`"
  | word w => "`" ++ w ++ "`"
  | declarationWord => "`var`, `let` or `const`"
  | loopBinding => "loop binding"
  | assignable => "assignable target before assignment operator"

/-- A token that is not what was expected. -/
structure ParseError where
  expected : Expected
  found : Kind
  position : Position
  deriving DecidableEq

/-- What was expected, what was found and where. -/
def ParseError.message (e : ParseError) : String :=
  "Script parse error at " ++ toString e.position.line ++ ":" ++ toString e.position.column ++
    ": expected " ++ e.expected.text ++ ", found " ++ e.found.describe

/-- Tokens that are still to be read. -/
structure Stream where
  rest : List Token
  /-- What is read when no tokens are left. -/
  ending : Token
  deriving DecidableEq

namespace Stream

/-- The stream of a list of tokens. -/
def ofTokens (tokens : List Token) : Stream where
  rest := tokens
  ending := tokens.getLast?.getD ⟨.eof, 0, .start⟩

/-- The next token. -/
def current (s : Stream) : Token := s.rest.head?.getD s.ending

/-- The stream after its next token. -/
def tail (s : Stream) : Stream := { s with rest := s.rest.tail }

end Stream

instance : Parsing.Remaining Stream := ⟨fun s => s.rest.length⟩

/-- A parser of script tokens. -/
abbrev Parser := Parsing.Parser Stream ParseError

namespace Parser

variable {α : Type}

/-- The kind of the next token. -/
def kind : Parser Kind := return (← get).current.kind

/-- Refuse the next token. -/
def refuse (expected : Expected) : Parser α := do
  let token := (← get).current
  throw ⟨expected, token.kind, token.position⟩

/-- Read the next token. -/
def advance : Parser Unit := modify Stream.tail

/-- The next token is of a kind. -/
def at? (k : Kind) : Parser Bool := return (← kind) == k

/-- Read the next token if it is of a kind. -/
def eat (k : Kind) : Parser Bool := do
  if ← at? k then
    advance
    return true
  else return false

/-- The next token is a punctuator. -/
def atPunct (p : Punct) : Parser Bool := at? (.punct p)

/-- Read a punctuator if it is there. -/
def eatPunct (p : Punct) : Parser Bool := eat (.punct p)

/-- Read a punctuator. -/
def punct (p : Punct) : Parser Unit := do
  unless ← eatPunct p do refuse (.punct p)

/-- Read a word if it is there. -/
def eatWord (word : String) : Parser Bool := eat (.ident word)

/-- Read a word. -/
def word (word : String) : Parser Unit := do
  unless ← eatWord word do refuse (.word word)

/-- Read a name that can be bound. -/
def name : Parser String := do
  match ← kind with
  | .ident name =>
    if name ∈ reservedWords then refuse .identifier
    else
      advance
      return name
  | _ => refuse .identifier

/-- Read the name of a property, which may be a reserved word. -/
def propertyName : Parser String := do
  match ← kind with
  | .ident name =>
    advance
    return name
  | _ => refuse .propertyName

/-- End a statement; the semicolon may be missing. -/
def endStatement : Parser Unit := do
  let _ ← eatPunct .semicolon

/-- Items with commas between them and their closing punctuator. -/
def commaItems (close : Punct) (item : Parser α) : Parser (List α) := do
  let items ← Parsing.items (atPunct close) (eatPunct .comma) item
  punct close
  return items

end Parser

end IndicatorCompiler.Script
