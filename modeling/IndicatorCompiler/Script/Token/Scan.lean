import IndicatorCompiler.Script.Token

/-!
# Scanning scripts

`lexeme` reads the one token at the head of a text and says how many characters it takes; `trivia`
goes on over white space and comments in front of it.  Every token takes at least one character, so
the scan ends.
-/

namespace IndicatorCompiler.Script

open Text (Cursor Position)

/-! ## Lexemes -/

/-- The value of a hexadecimal digit of either case. -/
def hexValue? (c : Char) : Option Nat :=
  if c.isDigit then some (c.toNat - '0'.toNat)
  else if 'a' ≤ c ∧ c ≤ 'f' then some (c.toNat - 'a'.toNat + 10)
  else if 'A' ≤ c ∧ c ≤ 'F' then some (c.toNat - 'A'.toNat + 10)
  else none

/-- The number written by hexadecimal digits, at least one. -/
def hexNumber? (digits : List Char) : Option Nat :=
  if digits.isEmpty then none
  else digits.foldl (fun n c => n.bind fun n => (hexValue? c).map (16 * n + ·)) (some 0)

/-- The character that the four characters of a `\u` escape stand for.  A plus sign may take the
place of the first digit; halves of surrogate pairs are no characters. -/
def escapedCode? (digits : List Char) : Option Char :=
  let number := match digits with
    | '+' :: rest => hexNumber? rest
    | digits => hexNumber? digits
  number.bind fun n => if h : n.isValidChar then some (Char.ofNatAux n h) else none

/-- The character that a one-character escape stands for. -/
def unescaped (c : Char) : Char :=
  if c = 'n' then '\n' else if c = 't' then '\t' else if c = 'r' then '\r'
  else if c = '0' then '\x00' else c

/-- One more character in front of a string's content, which takes `n` more characters. -/
def consContent (c : Char) (n : Nat) (content : Except LexCause (List Char × Nat)) :
    Except LexCause (List Char × Nat) :=
  content.map fun (text, taken) => (c :: text, taken + n)

/-- The content of a string after its opening quote, and how many characters it takes together with
the closing quote. -/
def stringBody (quote : Char) : List Char → Except LexCause (List Char × Nat)
  | [] => .error .unterminatedString
  | c :: rest =>
    if c = '\n' then .error .unterminatedString
    else if c = quote then .ok ([], 1)
    else if c = '\\' then
      match rest with
      | [] => .error .unterminatedString
      | 'u' :: a :: b :: d :: e :: rest =>
        match escapedCode? [a, b, d, e] with
        | some code => consContent code 6 (stringBody quote rest)
        | none => .error .invalidEscape
      | 'u' :: _ => .error .invalidEscape
      | e :: rest => consContent (unescaped e) 2 (stringBody quote rest)
    else consContent c 1 (stringBody quote rest)

/-- A character that can start a name. -/
def startsName (c : Char) : Bool := c.isAlpha || c == '_' || c == '$'

/-- A character that can go on in a name. -/
def continuesName (c : Char) : Bool := c.isAlphanum || c == '_' || c == '$'

/-- The token at the head of a text and the number of characters it takes. -/
def lexeme (c : Char) (rest : List Char) : Except LexCause (Kind × Nat) :=
  if c = '"' ∨ c = '\'' then
    (stringBody c rest).map fun (text, n) => (.str (String.ofList text), n + 1)
  else if c = '`' then .error .templateLiteral
  else if startsName c then
    let word := c :: rest.takeWhile continuesName
    .ok (.ident (String.ofList word), word.length)
  else
    match Number.lexeme (c :: rest) with
    | [] =>
      match Punct.ofText? (c :: rest) with
      | some p => .ok (.punct p, p.text.length)
      | none => .error (.unexpectedChar c)
    | digits => .ok (.num (.ofLexeme digits), digits.length)

theorem Punct.length_text_pos (p : Punct) : 0 < p.text.length := by
  cases p <;> decide

/-- A token takes at least one character. -/
theorem pos_of_lexeme {c : Char} {rest : List Char} {kind : Kind} {n : Nat}
    (h : lexeme c rest = .ok (kind, n)) : 0 < n := by
  unfold lexeme at h
  split at h
  · cases hbody : stringBody c rest with
    | error e => rw [hbody] at h; cases h
    | ok body => rw [hbody] at h; cases h; exact Nat.succ_pos _
  · split at h
    · cases h
    · split at h
      · cases h; exact Nat.succ_pos _
      · split at h
        · split at h
          · cases h; exact Punct.length_text_pos _
          · cases h
        · rename_i hne
          cases h
          exact List.length_pos_iff.2 (by simpa using hne)

/-! ## Trivia -/

/-- Where a walk over trivia stands. -/
inductive TriviaMode where
  /-- Between tokens and comments. -/
  | outside
  /-- In a comment up to the end of the line. -/
  | lineComment
  /-- In a comment that started at a position and ends with `*/`. -/
  | blockComment (start : Position)

/-- Go on over white space and comments. -/
def trivia : TriviaMode → List Char → Nat → Position → Except LexError Cursor
  | .blockComment start, [], _, _ => .error ⟨.unterminatedComment, start⟩
  | _, [], offset, p => .ok ⟨[], offset, p⟩
  | .lineComment, c :: rest, offset, p =>
    trivia (if c = '\n' then .outside else .lineComment) rest (offset + c.utf8Size) (p.after c)
  | .blockComment start, c :: rest, offset, p =>
    match rest with
    | d :: rest =>
      if c = '*' ∧ d = '/' then
        trivia .outside rest (offset + c.utf8Size + d.utf8Size) ((p.after c).after d)
      else trivia (.blockComment start) (d :: rest) (offset + c.utf8Size) (p.after c)
    | [] => trivia (.blockComment start) [] (offset + c.utf8Size) (p.after c)
  | .outside, c :: rest, offset, p =>
    if c = '/' then
      match rest with
      | '/' :: rest =>
        trivia .lineComment ('/' :: rest) (offset + c.utf8Size) (p.after c)
      | '*' :: rest =>
        trivia (.blockComment p) rest (offset + c.utf8Size + '*'.utf8Size)
          ((p.after c).after '*')
      | _ => .ok ⟨c :: rest, offset, p⟩
    else if Text.Unicode.isBlank c then
      trivia .outside rest (offset + c.utf8Size) (p.after c)
    else .ok ⟨c :: rest, offset, p⟩
termination_by _ text => text.length

/-- The cursor behind white space and comments. -/
def skipTrivia (c : Cursor) : Except LexError Cursor := trivia .outside c.rest c.offset c.position

theorem length_trivia_le {mode : TriviaMode} {text : List Char} {offset : Nat} {p : Position}
    {c : Cursor} (h : trivia mode text offset p = .ok c) : c.rest.length ≤ text.length := by
  fun_induction trivia mode text offset p with
  | case1 => cases h
  | case2 => cases h; simp
  | case3 _ _ _ _ ih => exact Nat.le_succ_of_le (ih h)
  | case4 _ _ _ _ _ _ _ ih => exact Nat.le_succ_of_le (Nat.le_succ_of_le (ih h))
  | case5 _ _ _ _ _ _ _ ih | case6 _ _ _ _ ih | case7 _ _ _ ih => exact Nat.le_succ_of_le (ih h)
  | case8 _ _ _ ih => exact Nat.le_succ_of_le (Nat.le_succ_of_le (ih h))
  | case9 => cases h; simp
  | case10 _ _ _ _ _ _ ih => exact Nat.le_succ_of_le (ih h)
  | case11 => cases h; simp

theorem length_skipTrivia_le {c c' : Cursor} (h : skipTrivia c = .ok c') :
    c'.rest.length ≤ c.rest.length :=
  length_trivia_le h

/-! ## The scan -/

/-- The next token and the cursor behind it; the end of the text has no cursor behind it. -/
def next (c : Cursor) : Except LexError (Token × Option Cursor) :=
  match skipTrivia c with
  | .error e => .error e
  | .ok c =>
    match c.rest with
    | [] => .ok (⟨.eof, c.offset, c.position⟩, none)
    | ch :: rest =>
      match lexeme ch rest with
      | .error cause => .error ⟨cause, c.position⟩
      | .ok (kind, n) => .ok (⟨kind, c.offset, c.position⟩, some (c.skip n))

theorem length_next_lt {c after : Cursor} {token : Token}
    (h : next c = .ok (token, some after)) : after.rest.length < c.rest.length := by
  unfold next at h
  split at h
  · cases h
  · rename_i c' htrivia
    have hle := length_skipTrivia_le htrivia
    rcases hrest : c'.rest with _ | ⟨ch, rest⟩
    · rw [hrest] at h
      cases h
    · rw [hrest] at h
      simp only at h
      split at h
      · cases h
      · rename_i kind n hlex
        cases h
        have hpos := pos_of_lexeme hlex
        rw [Cursor.rest_skip, hrest, List.length_drop]
        rw [hrest] at hle
        simp only [List.length_cons] at hle ⊢
        omega

/-- The tokens from a cursor on, the last one marking the end of the text. -/
def tokens (c : Cursor) : Except LexError (List Token) :=
  match _h : next c with
  | .error e => .error e
  | .ok (token, none) => .ok [token]
  | .ok (token, some after) =>
    match tokens after with
    | .error e => .error e
    | .ok rest => .ok (token :: rest)
termination_by c.rest.length
decreasing_by exact length_next_lt _h

/-- The tokens of a text, the last one marking its end. -/
def scan (source : String) : Except LexError (List Token) := tokens (.ofText source.toList)

end IndicatorCompiler.Script
