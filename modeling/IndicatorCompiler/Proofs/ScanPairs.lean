import Mathlib.Data.List.Forall2
import IndicatorCompiler.Proofs.ScanSteps

/-!
# Two scans side by side

What does not matter to a scan is shown by a second scanner that walks over another text.  The two
differ in their cursors only.  Where they stand is told by a relation `Q`; if each step from there
leads to such places again, both read tokens of the same kinds up to the end.  A line feed that one
text has and the other has not makes one of the scanners take a step alone.
-/

namespace IndicatorCompiler.Pine

open Text (Cursor Position)

/-! ## What is left of a text -/

/-- The content that a scanner finds from the start of a line on, with the columns in front of
it. -/
def content (columns : Nat) (inComment : Bool) (text : List Char) : Nat × List Char :=
  ((toContent columns inComment text 0 .start).1,
    (toContent columns inComment text 0 .start).2.rest)

/-- Content does not depend on where the text stands. -/
theorem toContent_eq (columns : Nat) (inComment : Bool) (text : List Char) (offset : Nat)
    (p : Position) :
    ((toContent columns inComment text offset p).1,
      (toContent columns inComment text offset p).2.rest) = content columns inComment text := by
  unfold content
  generalize 0 = offset', Position.start = p'
  induction text generalizing columns inComment offset p offset' p' with
  | nil => rfl
  | cons c rest ih =>
    simp only [toContent]
    repeat' split
    all_goals first
      | exact ih _ _ _ _ _ _
      | rfl

theorem content_cons (columns : Nat) (inComment : Bool) (c : Char) (rest : List Char) :
    content columns inComment (c :: rest) =
      if c = '\n' then content 0 false rest
      else if inComment then content columns true rest
      else if c = ' ' then content (columns + 1) false rest
      else if c = '\t' then content (columns + indentWidth) false rest
      else if c = '\r' then content columns false rest
      else if c = '/' ∧ rest.head? = some '/' then content columns true rest
      else (columns, c :: rest) := by
  rw [content]
  simp only [toContent]
  repeat' split
  all_goals first
    | exact toContent_eq _ _ _ _ _
    | rfl

theorem lineContent_eq (c : Cursor) :
    ((lineContent c).1, (lineContent c).2.rest) = content 0 false c.rest :=
  toContent_eq 0 false c.rest c.offset c.position

theorem continuesLine_eq (c : Cursor) : continuesLine c =
    (!(content 0 false c.rest).2.isEmpty &&
      decide ((content 0 false c.rest).1 % indentWidth ≠ 0)) := by
  rw [← lineContent_eq]
  rfl

/-- The cursor behind the blanks and the comment that it stands in front of. -/
def ahead (c : Cursor) : Cursor := skipComment (c.skipWhile isInlineBlank)

/-- A text behind the comment that it begins with. -/
def uncommented : List Char → List Char
  | '/' :: '/' :: rest => rest.dropWhile (· != '\n')
  | text => text

theorem rest_ahead (c : Cursor) :
    (ahead c).rest = uncommented (c.rest.dropWhile isInlineBlank) := by
  rw [← Cursor.rest_skipWhile, ahead, skipComment]
  split
  · rename_i rest h
    rw [Cursor.rest_skipWhile, h]
    rfl
  · rename_i h
    unfold uncommented
    split
    · rename_i rest hrest
      exact (h rest hrest).elim
    · rfl

theorem uncommented_of_not {text} (h : ¬ ['/', '/'] <+: text) : uncommented text = text := by
  unfold uncommented
  split
  · exact absurd ⟨_, rfl⟩ h
  · rfl

theorem comment_iff {c rest} : ['/', '/'] <+: c :: rest ↔ c = '/' ∧ rest.head? = some '/' := by
  rw [List.cons_prefix_cons, eq_comm, List.head?_eq_some_iff]
  simp [List.IsPrefix, eq_comm]

theorem rest_next {e : Cursor} {ch rest} (h : e.rest = ch :: rest) : e.next.rest = rest := by
  unfold Cursor.next
  rw [h]

/-! ## Side by side -/

/-- Tokens of one kind, in places that are near each other. -/
def Alike (near : Position → Position → Prop) (t u : Token) : Prop :=
  t.kind = u.kind ∧ near t.position u.position

namespace Scanner

/-- The scanner with another cursor. -/
def moved (s : Scanner) (d : Cursor) : Scanner := { s with cursor := d }

theorem tokens_eq (s : Scanner) : s.tokens = match s.step with
    | .error e => .error e
    | .ok (.finish token) => .ok [token]
    | .ok (.skip next) => next.tokens
    | .ok (.emit token next) => next.tokens.map (token :: ·) := by
  rw [tokens]
  split
  · rename_i h
    rw [h]
  · rename_i h
    rw [h]
  · rename_i h
    rw [h]
  · rename_i token next h
    rw [h]
    change _ = next.tokens.map (token :: ·)
    cases next.tokens <;> rfl

section

variable (near : Position → Position → Prop) (strict : Prop) (Q : Scanner → Cursor → Prop)

/-- What two steps give side by side.  Where the first one fails, nothing is asked of the second
one, unless `strict` holds. -/
inductive Pairs : Except LexError Step → Except LexError Step → Prop
  | fail {e result} (h : strict → ∃ e', result = .error e') : Pairs (.error e) result
  | finish {t u} (h : Alike near t u) : Pairs (.ok (.finish t)) (.ok (.finish u))
  | emit {t u next d} (h : Alike near t u) (hnext : Q next d) :
    Pairs (.ok (.emit t next)) (.ok (.emit u (next.moved d)))
  | skip {next d} (hnext : Q next d) : Pairs (.ok (.skip next)) (.ok (.skip (next.moved d)))

/-- The scanner and its counterpart at `d` take a step together, or one of them takes a step
alone. -/
inductive Beside (s : Scanner) (d : Cursor) : Prop
  | both (h : Pairs near strict Q s.step (s.moved d).step)
  | first {next : Scanner} (h : s.step = .ok (.skip next)) (hmoved : next.moved d = s.moved d)
      (hnext : Q next d)
  | second {e : Cursor} (h : (s.moved d).step = .ok (.skip (s.moved e))) (hnext : Q s e)

/-- Two scans with tokens of the same kinds. -/
inductive Follows : Except LexError (List Token) → Except LexError (List Token) → Prop
  | fail {e result} (h : strict → ∃ e', result = .error e') : Follows (.error e) result
  | read {ts us} (h : List.Forall₂ (Alike near) ts us) : Follows (.ok ts) (.ok us)

variable {near strict Q}

theorem Follows.read_of_ok {result result' ts} (h : Follows near strict result result')
    (hts : result = .ok ts) : ∃ us, result' = .ok us ∧ List.Forall₂ (Alike near) ts us := by
  cases h with
  | fail => cases hts
  | read h => exact ⟨_, rfl, Except.ok.inj hts ▸ h⟩

/-- What every step keeps holds of whole scans. -/
theorem follows_tokens (hQ : ∀ s d, Q s d → Beside near strict Q s d) {s d} (h : Q s d) :
    Follows near strict s.tokens (s.moved d).tokens := by
  -- by what is left to scan of both texts, since one scanner may wait for the other
  generalize hn : s.size + (s.moved d).size = n
  induction n using Nat.strongRecOn generalizing s d with
  | ind n ih =>
    subst hn
    cases hQ s d h with
    | both hpair =>
      rw [tokens_eq s, tokens_eq (s.moved d)]
      generalize hs : s.step = r, hd : (s.moved d).step = r' at hpair
      cases hpair with
      | fail herror =>
        refine .fail fun hstrict => ?_
        obtain ⟨e', rfl⟩ := herror hstrict
        exact ⟨e', rfl⟩
      | finish ht => exact .read (.cons ht .nil)
      | @emit t u next d' ht hnext =>
        have hrest := ih _ (Nat.add_lt_add (size_step hs rfl) (size_step hd rfl)) hnext rfl
        change Follows near strict (next.tokens.map (t :: ·)) ((next.moved d').tokens.map (u :: ·))
        generalize next.tokens = ts, (next.moved d').tokens = us at hrest
        cases hrest with
        | fail herror =>
          refine .fail fun hstrict => ?_
          obtain ⟨e', rfl⟩ := herror hstrict
          exact ⟨e', rfl⟩
        | read hts => exact .read (.cons ht hts)
      | skip hnext => exact ih _ (Nat.add_lt_add (size_step hs rfl) (size_step hd rfl)) hnext rfl
    | first hs hmoved hnext =>
      rw [tokens_eq s, hs, ← hmoved]
      exact ih _ (Nat.add_lt_add_of_lt_of_le (size_step hs rfl)
        (Nat.le_of_eq (congrArg size hmoved))) hnext rfl
    | second hd hnext =>
      rw [tokens_eq (s.moved d), hd]
      exact ih _ (Nat.add_lt_add_left (size_step hd rfl) _) hnext rfl

/-! ## Steps together -/

variable (near strict Q) in
/-- The scanner and its counterpart at `d`, both behind blanks and comments, find the same. -/
inductive Meets (s : Scanner) (d : Cursor) : Prop
  | text (hc : s.cursor.rest = []) (hd : d.rest = [])
    (h : ∀ indents, Q { s with indents := indents } d)
  | feed {rest rest' : List Char} (hc : s.cursor.rest = '\n' :: rest) (hd : d.rest = '\n' :: rest')
      (hcontinues : continuesLine d.next = continuesLine s.cursor.next)
      (hskips : 0 < s.depth ∨ continuesLine s.cursor.next = true →
        Q { s with cursor := s.cursor.next, lineStart := false } d.next)
      (hends : s.depth = 0 → Q { s with cursor := s.cursor.next, lineStart := true } d.next)
  | read {c : Char} {rest rest' : List Char} (hc : s.cursor.rest = c :: rest)
    (hd : d.rest = c :: rest')
      (hfeed : c ≠ '\n')
      (hfail : strict → ∀ e, lexeme c rest = .error e → ∃ e', lexeme c rest' = .error e')
      (hread : ∀ kind n, lexeme c rest = .ok (kind, n) → lexeme c rest' = .ok (kind, n) ∧
        ((c :: rest').take n).contains '\n' = ((c :: rest).take n).contains '\n' ∧
        ∀ depth, Q { s with
          cursor := s.cursor.skip n, lineStart := ((c :: rest).take n).contains '\n',
            depth := depth }
          (d.skip n))

theorem Meets.pairs {s d} (hnear : near s.cursor.position d.position) (h : Meets strict Q s d) :
    Pairs near strict Q s.contentStep (s.moved d).contentStep := by
  have hmark (kind : Kind) : Alike near (s.mark kind) ((s.moved d).mark kind) := ⟨rfl, hnear⟩
  cases h with
  | text hc hd h =>
    simp only [contentStep, moved, hc, hd]
    split
    · exact .emit (hmark .dedent) (h _)
    · exact .finish (hmark .eof)
  | feed hc hd hcontinues hskips hends =>
    simp only [contentStep, moved, hc, hd, if_true, hcontinues]
    split
    · rename_i hskip
      exact .skip (hskips hskip)
    · rename_i hskip
      exact .emit ⟨rfl, hnear⟩ (hends (Nat.eq_zero_of_not_pos fun hdepth => hskip (.inl hdepth)))
  | @read c rest rest' hc hd hfeed hfail hread =>
    simp only [contentStep, moved, hc, hd, if_neg hfeed]
    cases hlex : lexeme c rest with
    | error e =>
      refine .fail fun hstrict => ?_
      obtain ⟨e', he'⟩ := hfail hstrict e hlex
      rw [he']
      exact ⟨_, rfl⟩
    | ok read =>
      obtain ⟨kind, n⟩ := read
      obtain ⟨hlex', hline, hnext⟩ := hread kind n hlex
      simp only [hlex', hline]
      exact .emit ⟨rfl, hnear⟩ (hnext _)

variable (near strict Q) in
/-- The scanner and its counterpart at `d`, both at the start of a line, find content with the same
indentation. -/
structure Enters (s : Scanner) (d : Cursor) : Prop where
  columns : (lineContent d).1 = (lineContent s.cursor).1
  isEmpty : (lineContent d).2.rest.isEmpty = (lineContent s.cursor).2.rest.isEmpty
  place : near (lineContent s.cursor).2.position (lineContent d).2.position
  opens : ∀ level indents owed,
    Q { s.onLine (lineContent s.cursor).2 level with indents := indents, owed := owed }
    (lineContent d).2
  content : near (ahead (lineContent s.cursor).2).position (ahead (lineContent d).2).position ∧
    ∀ level, Meets strict Q (s.onLine (ahead (lineContent s.cursor).2) level)
    (ahead (lineContent d).2)

/-- A step together, in front of a layout token, at the start of a line or on a line. -/
theorem pairs_step {s d} (hnear : near s.cursor.position d.position)
    (howed : 0 < s.owed → Q { s with owed := s.owed - 1 } d)
    (hline : s.owed = 0 → s.depth = 0 → s.lineStart = true → Enters near strict Q s d)
    (hcontent : s.owed = 0 → 0 < s.depth ∨ s.lineStart = false →
      near (ahead s.cursor).position (ahead d).position ∧
      Meets strict Q (s.onLine (ahead s.cursor) s.level) (ahead d)) :
    Pairs near strict Q s.step (s.moved d).step := by
  by_cases hpos : 0 < s.owed
  · have hpos' : 0 < (s.moved d).owed := hpos
    simp only [step, layout, if_pos hpos, if_pos hpos']
    exact .emit ⟨rfl, hnear⟩ (howed hpos)
  have hpos' : ¬ 0 < (s.moved d).owed := hpos
  have hzero : s.owed = 0 := Nat.eq_zero_of_not_pos hpos
  by_cases hdepth : 0 < s.depth
  · have hdepth' : 0 < (s.moved d).depth := hdepth
    simp only [step, layout, if_neg hpos, if_pos hdepth, if_neg hpos', if_pos hdepth']
    obtain ⟨hnear', hmeets⟩ := hcontent hzero (.inl hdepth)
    exact hmeets.pairs hnear'
  cases hstart : s.lineStart with
  | false =>
    obtain ⟨hnear', hmeets⟩ := hcontent hzero (.inr hstart)
    simp only [step, layout, moved, if_neg hpos, if_neg hdepth, hstart, Bool.false_eq_true,
      if_false]
    exact hmeets.pairs hnear'
  | true =>
    obtain ⟨hcolumns, hempty, hnear, hopens, hnear', hmeets⟩ :=
      hline hzero (Nat.eq_zero_of_not_pos hdepth) hstart
    simp only [step, layout, moved, if_neg hpos, if_neg hdepth, hstart, if_true, hcolumns, hempty]
    by_cases hend : (lineContent s.cursor).2.rest.isEmpty = true
    · simp only [if_pos hend]
      exact (hmeets s.level).pairs hnear'
    simp only [if_neg hend, enterLine]
    by_cases hdeeper : s.indents.headD 0 < (lineContent s.cursor).1 / indentWidth
    · simp only [if_pos hdeeper]
      exact .emit ⟨rfl, hnear⟩ (hopens _ _ _)
    simp only [if_neg hdeeper]
    by_cases hcloses : (lineContent s.cursor).1 / indentWidth < s.indents.headD 0
    · by_cases hkept : (s.indents.dropWhile ((lineContent s.cursor).1 / indentWidth < ·)).headD 0 =
          (lineContent s.cursor).1 / indentWidth
      · simp only [if_pos hcloses, if_pos hkept]
        exact .emit ⟨rfl, hnear⟩ (hopens _ _ _)
      · simp only [if_pos hcloses, if_neg hkept]
        exact .fail fun _ => ⟨_, rfl⟩
    · simp only [if_neg hcloses]
      exact (hmeets _).pairs hnear'

end

end Scanner

end IndicatorCompiler.Pine
