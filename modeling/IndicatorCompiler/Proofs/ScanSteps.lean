import IndicatorCompiler.Pine.Token.Scan

/-!
# Steps of a scan

What a scanner can do in one step, case by case.  What holds throughout a scan is shown from these
cases.
-/

namespace IndicatorCompiler.Pine

open Text (Cursor)

/-! ## Lexemes -/

/-- The ways to read a token at the head of a text. -/
inductive Lexed (c : Char) (rest : List Char) : Kind → Nat → Prop
  | pair {d symbol} (hnext : rest.head? = some d) (h : Symbol.ofPair? c d = some symbol) :
    Lexed c rest (.symbol symbol) 2
  | string {text n} (h : stringBody c rest = some (text, n)) (hc : c = '"' ∨ c = '\'') :
      Lexed c rest (.str (String.ofList text)) (n + 1)
  | color {digits} (h : colorDigits? rest = some digits) (hc : c = '#') :
      Lexed c rest (.color (String.ofList ('#' :: digits))) (digits.length + 1)
  | number (h : startsNumber c rest = true) : Lexed c rest (numberKind (Number.lexeme (c :: rest)))
      (max 1 (Number.lexeme (c :: rest)).length)
  | single {symbol} (h : Symbol.ofSingle? c = some symbol) : Lexed c rest (.symbol symbol) 1
  | word (hc : startsName c = true) : Lexed c rest (wordKind (c :: rest.takeWhile continuesName))
      ((rest.takeWhile continuesName).length + 1)

theorem lexed_of_lexeme {c rest kind n} (h : lexeme c rest = .ok (kind, n)) :
    Lexed c rest kind n := by
  unfold lexeme at h
  split at h
  · rename_i hpair
    cases h
    obtain ⟨d, hnext, hsymbol⟩ := Option.bind_eq_some_iff.mp hpair
    exact .pair hnext hsymbol
  · split at h
    · split at h <;> cases h
      rename_i hquote _ _ _ hbody
      exact .string hbody hquote
    · split at h
      · split at h <;> cases h
        rename_i hc _ _ hdigits
        exact .color hdigits hc
      · split at h
        · rename_i hstarts
          cases h
          exact .number hstarts
        · split at h
          · rename_i hsymbol
            cases h
            exact .single hsymbol
          · split at h <;> cases h
            rename_i hc
            exact .word hc

/-- The token is on a line, or ends one: it neither opens nor closes a block, nor ends the text. -/
def Kind.isContent : Kind → Bool
  | .indent | .dedent | .eof => false
  | _ => true

/-- Layout is no lexeme's concern. -/
theorem Lexed.isContent {c rest kind n} (h : Lexed c rest kind n) :
    kind.isContent = true ∧ kind ≠ .newline := by
  cases h with
  | number =>
    unfold numberKind
    simp only
    split <;> exact ⟨rfl, by simp⟩
  | word =>
    unfold wordKind
    simp only
    split <;> exact ⟨rfl, by simp⟩
  | _ => exact ⟨rfl, by simp⟩

/-! ## Steps -/

namespace Scanner

/-- The scanner at a place of a line of some level. -/
def onLine (s : Scanner) (cursor : Cursor) (level : Nat) : Scanner :=
  { s with cursor := cursor, lineStart := false, level := level }

/-- With no layout token due, the scanner goes on over blanks and a comment to a place. -/
structure Reaches (s : Scanner) (cursor : Cursor) : Prop where
  owed : s.owed = 0
  cursor : ∃ start, (start = s.cursor ∨ start = (lineContent s.cursor).2) ∧
    cursor = skipComment (start.skipWhile isInlineBlank)

/-- At the start of a line outside of brackets, the scanner compares indentation. -/
structure Starts (s : Scanner) : Prop where
  owed : s.owed = 0
  depth : s.depth = 0
  lineStart : s.lineStart = true

/-- The ways to take a step. -/
inductive Stepped (s : Scanner) : Except LexError Step → Prop
  | owed (h : 0 < s.owed) : Stepped s (.ok (.emit (s.mark .dedent) { s with owed := s.owed - 1 }))
  | opens {level} (h : s.Starts) (hlevel : s.indents.headD 0 < level) :
      Stepped s (.ok (.emit ((s.onLine (lineContent s.cursor).2 level).mark .indent)
        { s.onLine (lineContent s.cursor).2 level with indents := level :: s.indents }))
  | closes {level} (h : s.Starts) (hlevel : level < s.indents.headD 0) :
      Stepped s (.ok (.emit ((s.onLine (lineContent s.cursor).2 level).mark .dedent)
        { s.onLine (lineContent s.cursor).2 level with
          indents := s.indents.dropWhile (level < ·)
          owed := s.indents.length - (s.indents.dropWhile (level < ·)).length - 1 }))
  | closesLast {cursor level top outer more} (h : s.Reaches cursor) (hrest : cursor.rest = [])
      (hindents : s.indents = top :: outer :: more) :
      Stepped s (.ok (.emit ((s.onLine cursor level).mark .dedent)
        { s.onLine cursor level with indents := outer :: more }))
  | finishes {cursor level} (h : s.Reaches cursor) (hrest : cursor.rest = [])
      (hindents : s.indents.length ≤ 1) :
    Stepped s (.ok (.finish ((s.onLine cursor level).mark .eof)))
  | skips {cursor level rest} (h : s.Reaches cursor) (hrest : cursor.rest = '\n' :: rest) :
    Stepped s (.ok (.skip (s.onLine cursor.next level)))
  | ends {cursor level rest} (h : s.Reaches cursor) (hrest : cursor.rest = '\n' :: rest)
      (hdepth : s.depth = 0) :
      Stepped s (.ok (.emit ((s.onLine cursor level).token .newline cursor.next)
        { s.onLine cursor.next level with lineStart := true }))
  | reads {cursor level c rest kind n} (h : s.Reaches cursor) (hrest : cursor.rest = c :: rest)
      (hc : c ≠ '\n') (hlex : Lexed c rest kind n) :
      Stepped s (.ok (.emit ((s.onLine cursor level).token kind (cursor.skip n))
        { s.onLine (cursor.skip n) level with
          lineStart := ((c :: rest).take n).contains '\n'
          depth := depthAfter s.depth kind }))
  | misplaced {level cause} :
      Stepped s (.error ((s.onLine (lineContent s.cursor).2 level).error cause))
  | unreadable {cursor level cause} (h : s.Reaches cursor) :
      Stepped s (.error ((s.onLine cursor level).error cause))

theorem stepped_contentStep {s cursor} (level : Nat) (h : s.Reaches cursor) :
    Stepped s (s.onLine cursor level).contentStep := by
  unfold contentStep
  split
  · rename_i hrest
    split
    · rename_i hindents
      exact .closesLast h hrest hindents
    · rename_i hground
      refine .finishes h hrest ?_
      match hindents : s.indents with
      | [] => exact Nat.zero_le 1
      | [_] => exact Nat.le_refl 1
      | top :: outer :: more => exact (hground top outer more hindents).elim
  · rename_i c rest hrest
    split
    · rename_i hc
      subst hc
      simp only
      split
      · exact .skips h hrest
      · rename_i hends
        exact .ends h hrest (Nat.eq_zero_of_not_pos fun hdepth => hends (.inl hdepth))
    · rename_i hc
      split
      · exact .unreadable h
      · rename_i hlex
        exact .reads h hrest hc (lexed_of_lexeme hlex)

/-- Every step is one of these. -/
theorem stepped_step (s : Scanner) : Stepped s s.step := by
  by_cases howed : 0 < s.owed
  · simp only [step, layout, if_pos howed]
    exact .owed howed
  · have hzero : s.owed = 0 := Nat.eq_zero_of_not_pos howed
    by_cases hdepth : 0 < s.depth
    · simp only [step, layout, if_neg howed, if_pos hdepth]
      exact stepped_contentStep s.level ⟨hzero, s.cursor, .inl rfl, rfl⟩
    · cases hstart : s.lineStart with
      | false =>
        simp only [step, layout, if_neg howed, if_neg hdepth, hstart, Bool.false_eq_true, if_false]
        rw [show s = s.onLine s.cursor s.level by simp [onLine, ← hstart]]
        exact stepped_contentStep s.level ⟨hzero, s.cursor, .inl rfl, rfl⟩
      | true =>
        have hline : s.Starts := ⟨hzero, Nat.eq_zero_of_not_pos hdepth, hstart⟩
        have hreaches : s.Reaches
          (skipComment ((lineContent s.cursor).2.skipWhile isInlineBlank)) :=
          ⟨hzero, _, .inr rfl, rfl⟩
        simp only [step, layout, if_neg howed, if_neg hdepth, hstart, if_true]
        by_cases hend : (lineContent s.cursor).2.rest.isEmpty = true
        · simp only [if_pos hend]
          exact stepped_contentStep s.level hreaches
        · simp only [if_neg hend, enterLine]
          by_cases hopens : s.indents.headD 0 < (lineContent s.cursor).1 / indentWidth
          · simp only [if_pos hopens]
            exact .opens hline hopens
          · simp only [if_neg hopens]
            by_cases hcloses : (lineContent s.cursor).1 / indentWidth < s.indents.headD 0
            · simp only [if_pos hcloses]
              split
              · rename_i heq
                split at heq <;> cases heq
                exact .misplaced
              · rename_i heq
                split at heq <;> cases heq
                exact .closes hline hcloses
              · rename_i heq
                split at heq <;> cases heq
            · simp only [if_neg hcloses]
              exact stepped_contentStep _ hreaches

/-- The tokens that a scanner gives, step after step. -/
inductive Scans : Scanner → List Token → Prop
  | finish {s token} (h : s.step = .ok (.finish token)) : Scans s [token]
  | skip {s next tokens} (h : s.step = .ok (.skip next)) (more : Scans next tokens) : Scans s tokens
  | emit {s next token rest} (h : s.step = .ok (.emit token next)) (more : Scans next rest) :
    Scans s (token :: rest)

theorem scans_of_tokens {s tokens} (h : s.tokens = .ok tokens) : Scans s tokens := by
  fun_induction Scanner.tokens s generalizing tokens with
  | case1 => cases h
  | case2 s token hstep =>
    cases h
    exact .finish hstep
  | case3 s next hstep ih => exact .skip hstep (ih h)
  | case4 => cases h
  | case5 s token next hstep rest hrest ih =>
    cases h
    exact .emit hstep (ih hrest)

end Scanner

end IndicatorCompiler.Pine
