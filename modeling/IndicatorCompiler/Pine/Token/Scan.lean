import IndicatorCompiler.Pine.Token.Lexeme

/-!
# Scanning indicator source

A scanner walks over the text and emits tokens.  At the start of a logical line it compares the
line's indentation with the open blocks and emits the tokens that open or close blocks; blank lines
and comment lines do not count.  A line feed ends a logical line, unless a bracket is open or the
next line with content is indented by columns that are no multiple of four, which continues the
line.

Every step either reads characters or closes a block, so the scan ends: twice the unread characters
plus the open and the owed blocks goes down with every step.
-/

namespace IndicatorCompiler.Pine

open Text (Cursor Position)

/-- Columns of one indentation level; a tab counts as one level. -/
def indentWidth : Nat := 4

/-- Go on over blank lines and comments to the next character that has content, or to the end, and
count the columns in front of it on its line. -/
def toContent (columns : Nat) (inComment : Bool) : List Char → Nat → Position → Nat × Cursor
  | [], offset, p => (columns, ⟨[], offset, p⟩)
  | c :: rest, offset, p =>
    let offset' := offset + c.utf8Size
    let p' := p.after c
    if c = '\n' then toContent 0 false rest offset' p'
    else if inComment then toContent columns true rest offset' p'
    else if c = ' ' then toContent (columns + 1) false rest offset' p'
    else if c = '\t' then toContent (columns + indentWidth) false rest offset' p'
    else if c = '\r' then toContent columns false rest offset' p'
    else if c = '/' ∧ rest.head? = some '/' then toContent columns true rest offset' p'
    else (columns, ⟨c :: rest, offset, p⟩)

/-- `toContent` from the start of a line. -/
def lineContent (c : Cursor) : Nat × Cursor := toContent 0 false c.rest c.offset c.position

/-- The next line with content, seen from the start of a line, continues the line before. -/
def continuesLine (c : Cursor) : Bool :=
  let (columns, content) := lineContent c
  !content.rest.isEmpty && decide (columns % indentWidth ≠ 0)

/-- Blanks that may stand between the tokens of a line. -/
def isInlineBlank (c : Char) : Bool := c == ' ' || c == '\t' || c == '\r'

/-- Go on over a comment, up to the end of its line. -/
def skipComment (c : Cursor) : Cursor :=
  match c.rest with
  | '/' :: '/' :: _ => c.skipWhile (· != '\n')
  | _ => c

/-- The state of a scan. -/
structure Scanner where
  cursor : Cursor
  /-- Levels of the open blocks, the innermost first; the outermost is always level zero. -/
  indents : List Nat
  /-- Closed blocks whose tokens are still to be emitted. -/
  owed : Nat
  /-- The cursor stands at the start of a line. -/
  lineStart : Bool
  /-- Level of the logical line. -/
  level : Nat
  /-- Number of open brackets. -/
  depth : Nat
  deriving DecidableEq

namespace Scanner

/-- The scanner in front of a whole text. -/
def ofText (source : List Char) : Scanner := ⟨.ofText source, [0], 0, true, 0, 0⟩

/-- A token without extent at the cursor. -/
def mark (s : Scanner) (kind : Kind) : Token :=
  ⟨kind, s.cursor.offset, s.cursor.offset, s.cursor.position, s.level⟩

/-- A token from the cursor to `stop`. -/
def token (s : Scanner) (kind : Kind) (stop : Cursor) : Token :=
  ⟨kind, s.cursor.offset, stop.offset, s.cursor.position, s.level⟩

/-- The error `cause` at the cursor. -/
def error (s : Scanner) (cause : LexCause) : LexError := ⟨cause, s.cursor.position, s.cursor.offset⟩

/-- The scanner at the content of a line of level `level`: open a block, close blocks, or
neither. -/
def enterLine (s : Scanner) (level : Nat) : Except LexError (Option Token × Scanner) :=
  let s := { s with level := level }
  let current := s.indents.headD 0
  if current < level then
    .ok (some (s.mark .indent), { s with indents := level :: s.indents })
  else if level < current then
    let kept := s.indents.dropWhile (level < ·)
    if kept.headD 0 = level then
      .ok (some (s.mark .dedent),
        { s with indents := kept, owed := s.indents.length - kept.length - 1 })
    else .error (s.error (.inconsistentIndent level (kept.headD 0)))
  else .ok (none, s)

/-- The layout token that is due, if any. -/
def layout (s : Scanner) : Except LexError (Option Token × Scanner) :=
  if 0 < s.owed then .ok (some (s.mark .dedent), { s with owed := s.owed - 1 })
  else if 0 < s.depth then .ok (none, { s with lineStart := false })
  else if s.lineStart then
    let (columns, content) := lineContent s.cursor
    let s := { s with cursor := content, lineStart := false }
    if content.rest.isEmpty then .ok (none, s) else s.enterLine (columns / indentWidth)
  else .ok (none, s)

/-- The number of open brackets after a token. -/
def depthAfter (depth : Nat) : Kind → Nat
  | .symbol symbol => if symbol.opens then depth + 1 else if symbol.closes then depth - 1 else depth
  | _ => depth

/-- What one step of a scan gives. -/
inductive Step where
  /-- A token, and the scanner after it. -/
  | emit (token : Token) (next : Scanner)
  /-- A line feed that ends no logical line. -/
  | skip (next : Scanner)
  /-- The token at the end of the text. -/
  | finish (token : Token)

/-- The step of a scanner that owes no layout token and stands behind blanks and comments. -/
def contentStep (s : Scanner) : Except LexError Step :=
  match s.cursor.rest with
  | [] =>
    match s.indents with
    | _ :: outer :: more => .ok (.emit (s.mark .dedent) { s with indents := outer :: more })
    | _ => .ok (.finish (s.mark .eof))
  | c :: rest =>
    if c = '\n' then
      let next := s.cursor.next
      if 0 < s.depth ∨ continuesLine next = true then
        .ok (.skip { s with cursor := next, lineStart := false })
      else .ok (.emit (s.token .newline next) { s with cursor := next, lineStart := true })
    else
      match lexeme c rest with
      | .error cause => .error (s.error cause)
      | .ok (kind, n) =>
        let next := s.cursor.skip n
        -- an escaped line feed inside a string starts a line as well
        let lineStart := ((c :: rest).take n).contains '\n'
        .ok (.emit (s.token kind next)
          { s with cursor := next, lineStart := lineStart, depth := depthAfter s.depth kind })

/-- One step of a scan. -/
def step (s : Scanner) : Except LexError Step :=
  match s.layout with
  | .error e => .error e
  | .ok (some token, next) => .ok (.emit token next)
  | .ok (none, s) =>
    contentStep { s with cursor := skipComment (s.cursor.skipWhile isInlineBlank) }

/-! ## The scan ends -/

/-- Goes down with every step. -/
def size (s : Scanner) : Nat := 2 * s.cursor.rest.length + s.owed + s.indents.length

theorem length_toContent_le (columns : Nat) (inComment : Bool) (text : List Char) (offset : Nat)
    (p : Position) : (toContent columns inComment text offset p).2.rest.length ≤ text.length := by
  induction text generalizing columns inComment offset p with
  | nil => simp [toContent]
  | cons c rest ih =>
    simp only [toContent]
    repeat' split
    all_goals first
      | exact Nat.le_succ_of_le (ih _ _ _ _)
      | exact Nat.le_refl _

/-- Columns in front of content are characters that have been read. -/
theorem length_toContent_lt (columns : Nat) (inComment : Bool) (text : List Char) (offset : Nat)
    (p : Position) (h : columns < (toContent columns inComment text offset p).1) :
    (toContent columns inComment text offset p).2.rest.length < text.length := by
  cases text with
  | nil => simp [toContent] at h
  | cons c rest =>
    simp only [toContent] at h ⊢
    repeat' split
    all_goals first
      | exact Nat.lt_succ_of_le (length_toContent_le _ _ _ _ _)
      | simp_all

theorem length_lineContent_le (c : Cursor) : (lineContent c).2.rest.length ≤ c.rest.length :=
  length_toContent_le 0 false c.rest c.offset c.position

/-- A line of positive level has blanks in front of its content. -/
theorem length_lineContent_lt {c : Cursor} (h : 0 < (lineContent c).1 / indentWidth) :
    (lineContent c).2.rest.length < c.rest.length := by
  have hcolumns : 0 < (lineContent c).1 := by
    rcases Nat.eq_zero_or_pos (lineContent c).1 with hzero | hpos
    · rw [hzero] at h
      simp at h
    · exact hpos
  exact length_toContent_lt 0 false c.rest c.offset c.position hcolumns

theorem size_enterLine {s next : Scanner} {token : Option Token} {level : Nat}
    (h : s.enterLine level = .ok (token, next)) :
    next.cursor = s.cursor ∧
      ((token = none ∧ next.indents = s.indents ∧ next.owed = s.owed) ∨
        (next.indents = level :: s.indents ∧ next.owed = s.owed ∧ 0 < level) ∨
        next.owed + next.indents.length < s.indents.length) := by
  unfold enterLine at h
  simp only at h
  split at h
  · cases h
    exact ⟨rfl, Or.inr (Or.inl ⟨rfl, rfl, by omega⟩)⟩
  · split at h
    · split at h
      · cases h
        refine ⟨rfl, Or.inr (Or.inr ?_)⟩
        rename_i hlt _
        have hle : (s.indents.dropWhile (level < ·)).length < s.indents.length := by
          rcases hs : s.indents with _ | ⟨top, outer⟩
          · rw [hs] at hlt; simp at hlt
          · rw [hs] at hlt
            have htop : level < top := by simpa using hlt
            have hle' := (List.dropWhile_sublist (l := outer) (level < ·)).length_le
            simp [List.dropWhile, htop]
            omega
        simp only
        omega
      · cases h
    · cases h
      exact ⟨rfl, Or.inl ⟨rfl, rfl, rfl⟩⟩

/-- A token of the layout leaves less to scan, and without one there is no more than before. -/
theorem size_layout {s next : Scanner} {token : Option Token} (h : s.layout = .ok (token, next)) :
    next.size + token.toList.length ≤ s.size := by
  unfold layout at h
  split at h
  · cases h
    rename_i hpos
    simp only [size, Option.toList, List.length_singleton]
    omega
  · split at h
    · cases h
      exact Nat.le_refl _
    · split at h
      · simp only at h
        have hle := length_lineContent_le s.cursor
        split at h
        · cases h
          simp only [size, Option.toList, List.length_nil]
          omega
        · obtain ⟨hcursor, hcase⟩ := size_enterLine h
          have htoken : token.toList.length ≤ 1 := by cases token <;> simp
          simp only [size, hcursor]
          rcases hcase with ⟨rfl, hindents, howed⟩ | ⟨hindents, howed, hlevel⟩ | hdrop
          · simp only [hindents, howed, Option.toList, List.length_nil]
            omega
          · have hlt := length_lineContent_lt hlevel
            simp only [hindents, howed, List.length_cons]
            omega
          · simp only at hdrop
            omega
      · cases h
        exact Nat.le_refl _

/-- The scanner that goes on after a step. -/
def Step.next? : Step → Option Scanner
  | emit _ next | skip next => some next
  | finish _ => none

theorem size_contentStep {s next : Scanner} {result : Step} (h : s.contentStep = .ok result)
    (hnext : result.next? = some next) : next.size < s.size := by
  unfold contentStep at h
  rcases hrest : s.cursor.rest with _ | ⟨c, rest⟩
  · rw [hrest] at h
    simp only at h
    split at h
    · cases h
      rename_i hindents
      simp only [Step.next?, Option.some.injEq] at hnext
      subst hnext
      simp [size, hindents]
    · cases h
      simp [Step.next?] at hnext
  · rw [hrest] at h
    have hadvance : s.cursor.next.rest.length < s.cursor.rest.length := by
      simp [Cursor.next, hrest]
    simp only at h
    split at h
    · split at h <;> cases h <;> simp only [Step.next?, Option.some.injEq] at hnext <;>
        subst hnext <;> simp only [size] <;> omega
    · split at h
      · cases h
      · rename_i kind n hlex
        cases h
        simp only [Step.next?, Option.some.injEq] at hnext
        subst hnext
        have hpos := pos_of_lexeme hlex
        simp only [size, Cursor.rest_skip, hrest, List.length_drop, List.length_cons]
        omega

/-- Every step that goes on leaves less to scan. -/
theorem size_step {s next : Scanner} {result : Step} (h : s.step = .ok result)
    (hnext : result.next? = some next) : next.size < s.size := by
  unfold step at h
  split at h
  · cases h
  · rename_i token after hlayout
    cases h
    simp only [Step.next?, Option.some.injEq] at hnext
    subst hnext
    exact size_layout hlayout
  · rename_i after hlayout
    have hle := size_layout hlayout
    have hlt := size_contentStep h hnext
    have hskip : (skipComment (after.cursor.skipWhile isInlineBlank)).rest.length ≤
        after.cursor.rest.length := by
      have hblank : (after.cursor.skipWhile isInlineBlank).rest.length ≤
          after.cursor.rest.length := by
        rw [Cursor.rest_skipWhile]
        exact (List.dropWhile_sublist _).length_le
      unfold skipComment
      split
      · rw [Cursor.rest_skipWhile]
        exact Nat.le_trans (List.dropWhile_sublist _).length_le hblank
      · exact hblank
    simp only [size, Option.toList, List.length_nil] at hlt hle ⊢
    omega

/-! ## The scan -/

/-- The tokens from a scanner on, up to the end of the text. -/
def tokens (s : Scanner) : Except LexError (List Token) :=
  match _hstep : s.step with
  | .error e => .error e
  | .ok (.finish token) => .ok [token]
  | .ok (.skip next) => next.tokens
  | .ok (.emit token next) =>
    match next.tokens with
    | .error e => .error e
    | .ok rest => .ok (token :: rest)
termination_by s.size
decreasing_by
  · exact size_step _hstep rfl
  · exact size_step _hstep rfl

end Scanner

/-- The tokens of a text, the last one marking its end. -/
def scan (source : String) : Except LexError (List Token) :=
  (Scanner.ofText source.toList).tokens

end IndicatorCompiler.Pine
