import IndicatorCompiler.Parsing
import IndicatorCompiler.Pine.Token

/-!
# Streams of indicator tokens

A parser reads a stream of tokens and either returns a value and the rest of the stream, or says
what it expected in place of the token that it found.
-/

namespace IndicatorCompiler.Pine

open Text (Position)

/-- What a parser can expect. -/
inductive Expected where
  | identifier
  | expression
  | symbol (s : Symbol)
  | keyword (k : Keyword)
  /-- A word that is reserved only where it is expected. -/
  | word (word : String)
  | endOfLine
  | supportedStatement
  | assignable
  | newlineBeforeBlock
  | block
  | newlineAfterSwitch
  | switchCases
  | caseArrow
  | loopRange
  | exportable
  | newlineAfterType
  | typeFields
  | ternaryColon
  | callEnd
  | historyEnd
  | memberName
  deriving DecidableEq, Repr

/-- The expectation in words. -/
def Expected.text : Expected → String
  | identifier => "identifier"
  | expression => "expression"
  | symbol s => "`" ++ s.text ++ "`"
  | keyword k => "`" ++ k.text ++ "`"
  | word w => "`" ++ w ++ "`"
  | endOfLine => "end of line"
  | supportedStatement => "a statement (imports are not supported)"
  | assignable => "an assignable target before the assignment operator"
  | newlineBeforeBlock => "newline before an indented block"
  | block => "an indented block"
  | newlineAfterSwitch => "newline after `switch`"
  | switchCases => "indented switch cases"
  | caseArrow => "`=>` after a switch case"
  | loopRange => "`=` or `in` in a for loop"
  | exportable => "a function, method or type after `export`"
  | newlineAfterType => "newline after the type name"
  | typeFields => "indented type fields"
  | ternaryColon => "`:` in a ternary expression"
  | callEnd => "`)` after call arguments"
  | historyEnd => "`]` after history offset"
  | memberName => "member name after `.`"

/-- A token that is not what was expected. -/
structure ParseError where
  expected : Expected
  found : Kind
  position : Position
  deriving DecidableEq

/-- What was expected, what was found and where. -/
def ParseError.message (e : ParseError) : String :=
  "Parse error at " ++ toString e.position.line ++ ":" ++ toString e.position.column ++
    ": expected " ++ e.expected.text ++ ", found " ++ e.found.describe

/-- Tokens that are still to be read. -/
structure Stream where
  rest : List Token
  /-- The kind of the token that was read last. -/
  last : Option Kind
  /-- What is read when no tokens are left. -/
  ending : Token
  deriving DecidableEq

namespace Stream

/-- The stream of a list of tokens.  It ends where its last token stands. -/
def ofTokens (tokens : List Token) : Stream where
  rest := tokens
  last := none
  ending := match tokens.getLast? with
    | some t => ⟨.eof, t.stop, t.stop, t.position, 0⟩
    | none => ⟨.eof, 0, 0, .start, 0⟩

/-- The next token. -/
def current (s : Stream) : Token := s.rest.head?.getD s.ending

/-- The kind of the token `n` places further on. -/
def peek (s : Stream) (n : Nat) : Kind := (s.rest[n]?.map (·.kind)).getD .eof

/-- The stream after its next token. -/
def tail (s : Stream) : Stream :=
  match s.rest with
  | [] => s
  | t :: rest => { s with rest := rest, last := some t.kind }

/-- Tokens without the line ends in front of them. -/
def dropNewlines (last : Option Kind) : List Token → List Token × Option Kind
  | [] => ([], last)
  | t :: rest =>
    if t.kind = .newline then dropNewlines (some .newline) rest else (t :: rest, last)

/-- The stream without the line ends in front of it. -/
def skipNewlines (s : Stream) : Stream :=
  let (rest, last) := dropNewlines s.last s.rest
  { s with rest := rest, last := last }

end Stream

instance : Parsing.Remaining Stream := ⟨fun s => s.rest.length⟩

/-- A parser of indicator tokens. -/
abbrev Parser := Parsing.Parser Stream ParseError

namespace Parser

variable {α : Type}

/-- The kind of the next token. -/
def kind : Parser Kind := return (← get).current.kind

/-- The kind of the token after the next one. -/
def following : Parser Kind := return (← get).peek 1

/-- The line of the next token. -/
def line : Parser Nat := return (← get).current.position.line

/-- Refuse the next token. -/
def refuse (expected : Expected) : Parser α := do
  let token := (← get).current
  throw ⟨expected, token.kind, token.position⟩

/-- Read the next token. -/
def advance : Parser Unit := modify Stream.tail

/-- The next token is of a kind. -/
def at? (k : Kind) : Parser Bool := return (← kind) == k

/-- Read the next token if it is of a kind. -/
def eat (k : Kind) : Parser Bool := do
  if ← at? k then
    advance
    return true
  else return false

/-- Read a token of a kind. -/
def need (k : Kind) (expected : Expected) : Parser Unit := do
  unless ← eat k do refuse expected

/-- Read a symbol. -/
def symbol (s : Symbol) : Parser Unit := need (.symbol s) (.symbol s)

/-- Read a reserved word. -/
def keyword (k : Keyword) : Parser Unit := need (.keyword k) (.keyword k)

/-- Read a name. -/
def identifier : Parser String := do
  match ← kind with
  | .ident name =>
    advance
    return name
  | _ => refuse .identifier

/-- Read line ends. -/
def skipNewlines : Parser Unit := modify Stream.skipNewlines

/-- The next token ends a block. -/
def atBlockEnd : Parser Bool := do
  match ← kind with
  | .dedent | .eof => return true
  | _ => return false

/-- End a statement: with a line end, or where a block has just ended or is about to end. -/
def endStatement : Parser Unit := do
  if (← get).last == some .dedent then return
  if ← eat .newline then return
  unless ← atBlockEnd do refuse .endOfLine

/-- Items with commas between them, up to a closing token. -/
def commaItems (close : Kind) (item : Parser α) : Parser (List α) :=
  Parsing.items (at? close) (eat (.symbol .comma)) item

/-- At least one item, with commas between them. -/
def commaItemsOne (item : Parser α) : Parser (List α) :=
  Parsing.itemsOne (eat (.symbol .comma)) item

/-- An indented block of what `step` reads, from the line end in front of it. -/
def indented (step : Parser α) (newline opening : Expected) : Parser (List α) := do
  need .newline newline
  skipNewlines
  need .indent opening
  let body ← Parsing.repeated do
    skipNewlines
    if ← atBlockEnd then return none
    return some (← step)
  let _ ← eat .dedent
  return body

end Parser

end IndicatorCompiler.Pine
