import IndicatorCompiler.Pine.Token

/-!
# Lexemes of the indicator language

`lexeme` reads the one token at the head of a text that starts with neither blanks nor a comment,
and says how many characters it takes.  Layout is not its concern.
-/

namespace IndicatorCompiler.Pine

/-- The character that an escape sequence stands for. -/
def unescaped (c : Char) : Char :=
  if c = 'n' then '\n' else if c = 't' then '\t' else if c = 'r' then '\r'
  else if c = '0' then '\x00' else c

/-- The content of a string after its opening quote, and how many characters it takes together with
the closing quote.  A line feed ends a string early, unless it is escaped. -/
def stringBody (quote : Char) : List Char → Option (List Char × Nat)
  | [] => none
  | c :: rest =>
    if c = '\n' then none
    else if c = '\\' then
      match rest with
      | [] => none
      | e :: rest => (stringBody quote rest).map fun (text, n) => (unescaped e :: text, n + 2)
    else if c = quote then some ([], 1)
    else (stringBody quote rest).map fun (text, n) => (c :: text, n + 1)

/-- A hexadecimal digit of either case. -/
def isHexDigit (c : Char) : Bool :=
  c.isDigit || ('a' ≤ c && c ≤ 'f') || ('A' ≤ c && c ≤ 'F')

/-- The hexadecimal digits of a colour after its number sign: six or eight of them, at the end of a
word. -/
def colorDigits? (text : List Char) : Option (List Char) :=
  have digits := text.takeWhile isHexDigit
  have ends := match text.drop digits.length with
    | [] => true
    | c :: _ => !Text.Unicode.isWordChar c
  if (digits.length = 6 ∨ digits.length = 8) ∧ ends = true then some digits else none

/-- A character that can start a name. -/
def startsName (c : Char) : Bool := c.isAlpha || c == '_'

/-- A character that can go on in a name. -/
def continuesName (c : Char) : Bool := c.isAlphanum || c == '_'

/-- The largest integer literal; beyond it, digits are read as a float. -/
def maxInt : Nat := 2 ^ 63 - 1

/-- The number written by a decimal literal. -/
def numberKind (text : List Char) : Kind :=
  let value := Number.naturalOf text
  if text.any (fun c => c == '.' || c == 'e' || c == 'E') || decide (maxInt < value) then
    .float (.ofLexeme text)
  else .int value

/-- The name or reserved word written by `word`. -/
def wordKind (word : List Char) : Kind :=
  let word := String.ofList word
  match Keyword.ofWord? word with
  | some keyword => .keyword keyword
  | none => .ident word

/-- A number starts with a digit, or with a point before a digit. -/
def startsNumber (c : Char) (rest : List Char) : Bool :=
  c.isDigit || (c == '.' && (rest.head?.any Char.isDigit))

/-- The token at the head of a text and the number of characters it takes. -/
def lexeme (c : Char) (rest : List Char) : Except LexCause (Kind × Nat) :=
  match rest.head?.bind (Symbol.ofPair? c) with
  | some symbol => .ok (.symbol symbol, 2)
  | none =>
    if c = '"' ∨ c = '\'' then
      match stringBody c rest with
      | some (text, n) => .ok (.str (String.ofList text), n + 1)
      | none => .error .unterminatedString
    else if c = '#' then
      match colorDigits? rest with
      | some digits => .ok (.color (String.ofList ('#' :: digits)), digits.length + 1)
      | none => .error .malformedColor
    else if startsNumber c rest then
      let text := Number.lexeme (c :: rest)
      .ok (numberKind text, max 1 text.length)
    else
      match Symbol.ofSingle? c with
      | some symbol => .ok (.symbol symbol, 1)
      | none =>
        if startsName c then
          let word := c :: rest.takeWhile continuesName
          .ok (wordKind word, word.length)
        else .error (.unexpectedChar c)

/-- A token takes at least one character. -/
theorem pos_of_lexeme {c : Char} {rest : List Char} {kind : Kind} {n : Nat}
    (h : lexeme c rest = .ok (kind, n)) : 0 < n := by
  unfold lexeme at h
  split at h
  · cases h; decide
  · split at h
    · split at h
      · cases h; exact Nat.succ_pos _
      · cases h
    · split at h
      · split at h
        · cases h; exact Nat.succ_pos _
        · cases h
      · split at h
        · cases h; exact Nat.lt_of_lt_of_le Nat.zero_lt_one (Nat.le_max_left _ _)
        · split at h
          · cases h; decide
          · split at h
            · cases h; exact Nat.succ_pos _
            · cases h

end IndicatorCompiler.Pine
