import IndicatorCompiler.Number.Display
import IndicatorCompiler.Text.Cursor
import IndicatorCompiler.Text.Escaped

/-!
# Tokens of the indicator language

The language has significant indentation, so three kinds of token carry layout: the end of a logical
line, and the opening and closing of an indented block.  Every token knows its bytes, its position
and the indentation level of the logical line it belongs to.
-/

namespace IndicatorCompiler.Pine

open Text (Position)

/-- Reserved words. -/
inductive Keyword where
  | and | or | not
  | ifWord | elseWord | forWord | inWord | whileWord | switchWord | breakWord | continueWord
  | varWord | varipWord | typeWord | methodWord | exportWord | importWord
  | constWord | seriesWord | simpleWord
  | trueWord | falseWord
  deriving DecidableEq, Repr

namespace Keyword

/-- The spelling of a reserved word. -/
def text : Keyword → String
  | and => "and"
  | or => "or"
  | not => "not"
  | ifWord => "if"
  | elseWord => "else"
  | forWord => "for"
  | inWord => "in"
  | whileWord => "while"
  | switchWord => "switch"
  | breakWord => "break"
  | continueWord => "continue"
  | varWord => "var"
  | varipWord => "varip"
  | typeWord => "type"
  | methodWord => "method"
  | exportWord => "export"
  | importWord => "import"
  | constWord => "const"
  | seriesWord => "series"
  | simpleWord => "simple"
  | trueWord => "true"
  | falseWord => "false"

/-- The name of a reserved word in token listings. -/
def name (k : Keyword) : String := k.text.capitalize

/-- Every reserved word. -/
def all : List Keyword :=
  [and, or, not, ifWord, elseWord, forWord, inWord, whileWord, switchWord, breakWord, continueWord,
    varWord, varipWord, typeWord, methodWord, exportWord, importWord, constWord, seriesWord,
    simpleWord, trueWord, falseWord]

/-- The reserved word with a given spelling. -/
def ofWord? (word : String) : Option Keyword := all.find? fun k => k.text == word

theorem ofWord?_text (k : Keyword) : ofWord? k.text = some k := by
  cases k <;> decide

end Keyword

/-- Operators and delimiters. -/
inductive Symbol where
  | plus | minus | star | slash | percent
  | eqEq | notEq | lt | ltEq | gt | gtEq
  | eq | colonEq | plusEq | minusEq | starEq | slashEq | percentEq
  | fatArrow | question | colon | comma | dot
  | lParen | rParen | lBracket | rBracket | lBrace | rBrace
  deriving DecidableEq, Repr

namespace Symbol

/-- The spelling of a symbol. -/
def text : Symbol → String
  | plus => "+"
  | minus => "-"
  | star => "*"
  | slash => "/"
  | percent => "%"
  | eqEq => "=="
  | notEq => "!="
  | lt => "<"
  | ltEq => "<="
  | gt => ">"
  | gtEq => ">="
  | eq => "="
  | colonEq => ":="
  | plusEq => "+="
  | minusEq => "-="
  | starEq => "*="
  | slashEq => "/="
  | percentEq => "%="
  | fatArrow => "=>"
  | question => "?"
  | colon => ":"
  | comma => ","
  | dot => "."
  | lParen => "("
  | rParen => ")"
  | lBracket => "["
  | rBracket => "]"
  | lBrace => "\x7b"
  | rBrace => "\x7d"

/-- The name of a symbol in token listings. -/
def name : Symbol → String
  | plus => "Plus"
  | minus => "Minus"
  | star => "Star"
  | slash => "Slash"
  | percent => "Percent"
  | eqEq => "EqEq"
  | notEq => "NotEq"
  | lt => "Lt"
  | ltEq => "LtEq"
  | gt => "Gt"
  | gtEq => "GtEq"
  | eq => "Eq"
  | colonEq => "ColonEq"
  | plusEq => "PlusEq"
  | minusEq => "MinusEq"
  | starEq => "StarEq"
  | slashEq => "SlashEq"
  | percentEq => "PercentEq"
  | fatArrow => "FatArrow"
  | question => "Question"
  | colon => "Colon"
  | comma => "Comma"
  | dot => "Dot"
  | lParen => "LParen"
  | rParen => "RParen"
  | lBracket => "LBracket"
  | rBracket => "RBracket"
  | lBrace => "LBrace"
  | rBrace => "RBrace"

/-- The symbols of two characters. -/
def pairs : List (Char × Char × Symbol) :=
  [(':', '=', colonEq), ('=', '=', eqEq), ('!', '=', notEq), ('<', '=', ltEq), ('>', '=', gtEq),
    ('=', '>', fatArrow), ('+', '=', plusEq), ('-', '=', minusEq), ('*', '=', starEq),
    ('/', '=', slashEq), ('%', '=', percentEq)]

/-- The symbols of one character. -/
def singles : List (Char × Symbol) :=
  [('+', plus), ('-', minus), ('*', star), ('/', slash), ('%', percent), ('=', eq), ('<', lt),
    ('>', gt), ('?', question), (':', colon), (',', comma), ('.', dot), ('(', lParen),
    (')', rParen), ('[', lBracket), (']', rBracket), ('\x7b', lBrace), ('\x7d', rBrace)]

/-- The two-character symbol spelled by `c` and `d`. -/
def ofPair? (c d : Char) : Option Symbol :=
  (pairs.find? fun entry => entry.1 == c && entry.2.1 == d).map (·.2.2)

/-- The one-character symbol spelled by `c`. -/
def ofSingle? (c : Char) : Option Symbol := (singles.find? fun entry => entry.1 == c).map (·.2)

/-- A symbol that opens a bracket. -/
def opens : Symbol → Bool
  | lParen | lBracket | lBrace => true
  | _ => false

/-- A symbol that closes a bracket. -/
def closes : Symbol → Bool
  | rParen | rBracket | rBrace => true
  | _ => false

end Symbol

/-- What a token is. -/
inductive Kind where
  /-- The end of a logical line. -/
  | newline
  /-- The opening of an indented block. -/
  | indent
  /-- The closing of an indented block. -/
  | dedent
  /-- The end of the input. -/
  | eof
  | ident (name : String)
  | keyword (word : Keyword)
  | int (value : Nat)
  | float (value : Number.Double)
  | str (value : String)
  | color (text : String)
  | symbol (symbol : Symbol)
  deriving DecidableEq

namespace Kind

/-- The kind in a token listing: its name, with its content in parentheses. -/
def listing : Kind → String
  | newline => "Newline"
  | indent => "Indent"
  | dedent => "Dedent"
  | eof => "Eof"
  | ident name => "Ident(" ++ Text.showString name ++ ")"
  | keyword word => "Keyword(" ++ word.name ++ ")"
  | int value => "Int(" ++ toString value ++ ")"
  | float value => "Float(" ++ value.marked ++ ")"
  | str value => "Str(" ++ Text.showString value ++ ")"
  | color text => "Color(" ++ Text.showString text ++ ")"
  | symbol s => s.name

/-- The kind as a message to the author calls it. -/
def describe : Kind → String
  | newline => "newline"
  | indent => "indent"
  | dedent => "dedent"
  | eof => "end of input"
  | ident name => "identifier `" ++ name ++ "`"
  | keyword word => "keyword `" ++ word.text ++ "`"
  | int value => "number `" ++ toString value ++ "`"
  | float value => "number `" ++ value.plain ++ "`"
  | str value => "string " ++ Text.showString value
  | color text => "color `" ++ text ++ "`"
  | symbol s => "`" ++ s.text ++ "`"

end Kind

/-- A token and where it stands. -/
structure Token where
  kind : Kind
  /-- Offset of its first byte. -/
  start : Nat
  /-- Offset after its last byte. -/
  stop : Nat
  position : Position
  /-- Indentation level of its logical line. -/
  indent : Nat
  deriving DecidableEq

/-- Why a text is no sequence of tokens. -/
inductive LexCause where
  /-- A line closes blocks down to a level that none of them started from. -/
  | inconsistentIndent (level nearest : Nat)
  | unterminatedString
  /-- A number sign without a colour after it. -/
  | malformedColor
  | unexpectedChar (c : Char)
  deriving DecidableEq, Repr

/-- A text that is no sequence of tokens, and where that shows. -/
structure LexError where
  cause : LexCause
  position : Position
  offset : Nat
  deriving DecidableEq, Repr

namespace LexError

/-- What is wrong, without the place. -/
def detail (e : LexError) : String :=
  match e.cause with
  | .inconsistentIndent level nearest =>
    "Inconsistent indentation: dedent to level " ++ toString level ++
      " does not match any enclosing block (nearest is " ++ toString nearest ++ ")"
  | .unterminatedString => "Unterminated string literal"
  | .malformedColor => "Unterminated color literal: expected 6 or 8 hex digits after '#'"
  | .unexpectedChar c => "Unexpected character: " ++ Text.showChar c

/-- What is wrong and where. -/
def message (e : LexError) : String :=
  "Lex error at " ++ toString e.position.line ++ ":" ++ toString e.position.column ++ ": " ++
    e.detail

end LexError

end IndicatorCompiler.Pine
