import IndicatorCompiler.Number.Display
import IndicatorCompiler.Text.Cursor
import IndicatorCompiler.Text.Escaped

/-!
# Tokens of the script

White space and comments separate tokens and mean nothing else.  Reserved words are names to the
scanner; the grammar tells them apart by where they stand.
-/

namespace IndicatorCompiler.Script

open Text (Position)

/-- Punctuators. -/
inductive Punct where
  | strictEq | strictNotEq | ellipsis
  | arrow | eqEq | notEq | ltEq | gtEq | andAnd | orOr | nullish | plusPlus | minusMinus
  | plusEq | minusEq | starEq | slashEq | percentEq
  | lBrace | rBrace | lParen | rParen | lBracket | rBracket | semicolon | comma
  | lt | gt | plus | minus | star | slash | percent | bang | eq | question | colon | dot
  deriving DecidableEq, Repr

namespace Punct

/-- The spelling of a punctuator. -/
def text : Punct → String
  | strictEq => "==="
  | strictNotEq => "!=="
  | ellipsis => "..."
  | arrow => "=>"
  | eqEq => "=="
  | notEq => "!="
  | ltEq => "<="
  | gtEq => ">="
  | andAnd => "&&"
  | orOr => "||"
  | nullish => "??"
  | plusPlus => "++"
  | minusMinus => "--"
  | plusEq => "+="
  | minusEq => "-="
  | starEq => "*="
  | slashEq => "/="
  | percentEq => "%="
  | lBrace => "\x7b"
  | rBrace => "\x7d"
  | lParen => "("
  | rParen => ")"
  | lBracket => "["
  | rBracket => "]"
  | semicolon => ";"
  | comma => ","
  | lt => "<"
  | gt => ">"
  | plus => "+"
  | minus => "-"
  | star => "*"
  | slash => "/"
  | percent => "%"
  | bang => "!"
  | eq => "="
  | question => "?"
  | colon => ":"
  | dot => "."

/-- Every punctuator, longer ones first, so that the first that fits is the longest. -/
def all : List Punct :=
  [strictEq, strictNotEq, ellipsis, arrow, eqEq, notEq, ltEq, gtEq, andAnd, orOr, nullish,
    plusPlus, minusMinus, plusEq, minusEq, starEq, slashEq, percentEq, lBrace, rBrace, lParen,
    rParen, lBracket, rBracket, semicolon, comma, lt, gt, plus, minus, star, slash, percent, bang,
    eq, question, colon, dot]

/-- The longest punctuator at the head of a text. -/
def ofText? (text : List Char) : Option Punct :=
  all.find? fun p => p.text.toList.isPrefixOf text

end Punct

/-- What a token is. -/
inductive Kind where
  /-- A name or a reserved word. -/
  | ident (name : String)
  | num (value : Number.Double)
  | str (value : String)
  | punct (p : Punct)
  /-- The end of the input. -/
  | eof
  deriving DecidableEq

namespace Kind

/-- The kind in a token listing: its name, with its content in parentheses. -/
def listing : Kind → String
  | ident name => "Ident(" ++ Text.showString name ++ ")"
  | num value => "Num(" ++ value.marked ++ ")"
  | str value => "Str(" ++ Text.showString value ++ ")"
  | punct p => "Punct(" ++ Text.showString p.text ++ ")"
  | eof => "Eof"

/-- The kind as a message to the author calls it. -/
def describe : Kind → String
  | ident name => "`" ++ name ++ "`"
  | num value => "number `" ++ value.plain ++ "`"
  | str value => "string " ++ Text.showString value
  | punct p => "`" ++ p.text ++ "`"
  | eof => "end of input"

end Kind

/-- A token and where it starts. -/
structure Token where
  kind : Kind
  /-- Offset of its first byte. -/
  start : Nat
  position : Position
  deriving DecidableEq

/-- Why a text is no sequence of tokens. -/
inductive LexCause where
  | unterminatedComment
  | unterminatedString
  /-- `\u` without four hexadecimal digits of a character. -/
  | invalidEscape
  | templateLiteral
  | unexpectedChar (c : Char)
  deriving DecidableEq, Repr

/-- A text that is no sequence of tokens, and where that shows. -/
structure LexError where
  cause : LexCause
  position : Position
  deriving DecidableEq, Repr

namespace LexError

/-- What is wrong, without the place. -/
def detail (e : LexError) : String :=
  match e.cause with
  | .unterminatedComment => "Unterminated block comment"
  | .unterminatedString => "Unterminated string literal"
  | .invalidEscape => "Invalid unicode escape"
  | .templateLiteral => "Template literals are not supported"
  | .unexpectedChar c => "Unexpected character '" ++ c.toString ++ "'"

/-- What is wrong and where. -/
def message (e : LexError) : String :=
  "Script lex error at " ++ toString e.position.line ++ ":" ++ toString e.position.column ++ ": " ++
    e.detail

end LexError

end IndicatorCompiler.Script
