import IndicatorCompiler.Proofs.LexemeLine
import IndicatorCompiler.Proofs.Succeeds
import Mathlib.Data.List.Chain
import Mathlib.Data.List.TakeWhile

/-!
# Tokens and the text between them

A scan loses no text.  The bytes of each token are counted from the start of the source and spell
the token; what stands in front of a token, and behind the last one, is blanks, line feeds and
comments.
-/

namespace IndicatorCompiler

open Text (Cursor byteLength byteLength_append)

namespace Text.Cursor

/-- From one cursor to another, `read` is read. -/
structure Passes (c : Cursor) (read : List Char) (d : Cursor) : Prop where
  rest : c.rest = read ++ d.rest
  offset : d.offset = c.offset + byteLength read

variable {c d e : Cursor} {read more : List Char}

theorem Passes.refl (c : Cursor) : c.Passes [] c := ⟨rfl, rfl⟩

theorem Passes.trans (h : c.Passes read d) (h' : d.Passes more e) : c.Passes (read ++ more) e :=
  ⟨by rw [h.rest, h'.rest, List.append_assoc],
    by rw [h'.offset, h.offset, byteLength_append, Nat.add_assoc]⟩

theorem passes_next {ch rest} (h : c.rest = ch :: rest) : c.Passes [ch] c.next := by
  simp only [Cursor.next, h]
  exact ⟨h, rfl⟩

theorem passes_skip (n : Nat) (c : Cursor) : c.Passes (c.rest.take n) (c.skip n) := by
  induction n generalizing c with
  | zero => exact .refl c
  | succ n ih =>
    rcases c with ⟨_ | ⟨ch, rest⟩, offset, p⟩
    · simpa [skip, Cursor.next] using ih ⟨[], offset, p⟩
    · exact (passes_next rfl).trans (ih ⟨rest, offset + ch.utf8Size, p.after ch⟩)

theorem passes_skipWhile (p : Char → Bool) (c : Cursor) :
    c.Passes (c.rest.takeWhile p) (c.skipWhile p) := by
  rcases c with ⟨rest, offset, position⟩
  simp only [Cursor.skipWhile]
  induction rest generalizing offset position with
  | nil => exact .refl _
  | cons ch rest ih =>
    by_cases h : p ch = true
    · simpa [skipWhile.go, h] using
        (passes_next (c := ⟨ch :: rest, offset, position⟩) rfl).trans (ih _ _)
    · simpa [skipWhile.go, h] using Passes.refl _

end Text.Cursor

namespace Pine

/-! ## Gaps -/

/-- Blanks, line feeds and comments in front of `behind`, from inside a comment or not.  A comment
goes on to the end of its line. -/
inductive Gap (behind : List Char) : Bool → List Char → Prop
  | done : Gap behind false []
  | lineEnd (h : behind.head?.all (· == '\n') = true) : Gap behind true []
  | feed {inComment rest} (more : Gap behind false rest) : Gap behind inComment ('\n' :: rest)
  | blank {c rest} (hc : c = ' ' ∨ c = '\t' ∨ c = '\r') (more : Gap behind false rest) :
      Gap behind false (c :: rest)
  | comment {rest} (more : Gap behind true rest) : Gap behind false ('/' :: '/' :: rest)
  | text {c rest} (hc : c ≠ '\n') (more : Gap behind true rest) : Gap behind true (c :: rest)

namespace Gap

variable {behind : List Char}

theorem append {inComment first second} (h : Gap (second ++ behind) inComment first)
    (h' : Gap behind false second) : Gap behind inComment (first ++ second) := by
  induction h with
  | done => exact h'
  | lineEnd hend =>
    cases h' with
    | done => exact .lineEnd hend
    | feed more => exact .feed more
    | blank hc => rcases hc with rfl | rfl | rfl <;> cases hend
    | comment => cases hend
  | feed _ ih => exact .feed ih
  | blank hc _ ih => exact .blank hc ih
  | comment _ ih => exact .comment ih
  | text hc _ ih => exact .text hc ih

theorem of_blanks {text} (h : ∀ c ∈ text, isInlineBlank c = true) : Gap behind false text := by
  induction text with
  | nil => exact .done
  | cons c rest ih =>
    obtain ⟨hc, hrest⟩ := List.forall_mem_cons.mp h
    exact .blank (by simpa [isInlineBlank, or_assoc] using hc) (ih hrest)

theorem of_line {text} (h : ∀ c ∈ text, (c != '\n') = true)
    (hbehind : behind.head?.all (· == '\n') = true) : Gap behind true text := by
  induction text with
  | nil => exact .lineEnd hbehind
  | cons c rest ih =>
    obtain ⟨hc, hrest⟩ := List.forall_mem_cons.mp h
    exact .text (by simpa using hc) (ih hrest)

end Gap

/-- From one cursor to another, only a gap is read. -/
def Clears (c d : Cursor) : Prop := ∃ gap, c.Passes gap d ∧ Gap d.rest false gap

theorem Clears.trans {c d e} (h : Clears c d) (h' : Clears d e) : Clears c e := by
  obtain ⟨first, hfirst, hgap⟩ := h
  obtain ⟨second, hsecond, hgap'⟩ := h'
  rw [hsecond.rest] at hgap
  exact ⟨first ++ second, hfirst.trans hsecond, hgap.append hgap'⟩

theorem gap_toContent (columns : Nat) (inComment : Bool) (text : List Char) (offset : Nat)
    (p : Text.Position) :
    ∃ gap, Cursor.Passes ⟨text, offset, p⟩ gap (toContent columns inComment text offset p).2 ∧
      Gap (toContent columns inComment text offset p).2.rest inComment gap := by
  induction text generalizing columns inComment offset p with
  | nil =>
    refine ⟨[], .refl _, ?_⟩
    cases inComment
    · exact .done
    · exact .lineEnd rfl
  | cons c rest ih =>
    have hnext : Cursor.Passes ⟨c :: rest, offset, p⟩ [c] ⟨rest, offset + c.utf8Size, p.after c⟩ :=
      ⟨rfl, rfl⟩
    simp only [toContent]
    split
    · rename_i hc
      subst hc
      obtain ⟨gap, hpasses, hgap⟩ := ih 0 false (offset + '\n'.utf8Size) (p.after '\n')
      exact ⟨'\n' :: gap, hnext.trans hpasses, .feed hgap⟩
    · rename_i hfeed
      split
      · rename_i hin
        obtain ⟨gap, hpasses, hgap⟩ := ih columns true (offset + c.utf8Size) (p.after c)
        exact ⟨c :: gap, hnext.trans hpasses, hin ▸ .text hfeed hgap⟩
      · rename_i hout
        rw [Bool.not_eq_true] at hout
        subst hout
        have hblank (columns : Nat) (hc : c = ' ' ∨ c = '\t' ∨ c = '\r') :
            ∃ gap, Cursor.Passes ⟨c :: rest, offset, p⟩ gap
                (toContent columns false rest (offset + c.utf8Size) (p.after c)).2 ∧
              Gap (toContent columns false rest (offset + c.utf8Size) (p.after c)).2.rest false
                gap := by
          obtain ⟨gap, hpasses, hgap⟩ := ih columns false (offset + c.utf8Size) (p.after c)
          exact ⟨c :: gap, hnext.trans hpasses, .blank hc hgap⟩
        split
        · exact hblank _ (.inl ‹_›)
        · split
          · exact hblank _ (.inr (.inl ‹_›))
          · split
            · exact hblank _ (.inr (.inr ‹_›))
            · split
              · rename_i hslash
                obtain ⟨rfl, hhead⟩ := hslash
                obtain ⟨rest, rfl⟩ := List.head?_eq_some_iff.mp hhead
                obtain ⟨gap, hpasses, hgap⟩ := ih columns true (offset + '/'.utf8Size) (p.after '/')
                refine ⟨'/' :: gap, hnext.trans hpasses, ?_⟩
                -- the second slash is the comment's first character
                have hrest := hpasses.rest
                cases hgap with
                | lineEnd hend =>
                  rw [List.nil_append] at hrest
                  rw [← hrest] at hend
                  cases hend
                | feed => cases hrest
                | text _ more =>
                  obtain ⟨rfl, -⟩ := List.cons.inj hrest
                  exact .comment more
              · exact ⟨[], .refl _, .done⟩

theorem clears_lineContent (c : Cursor) : Clears c (lineContent c).2 :=
  gap_toContent 0 false c.rest c.offset c.position

theorem clears_blanks (c : Cursor) : Clears c (c.skipWhile isInlineBlank) :=
  ⟨_, c.passes_skipWhile _, .of_blanks fun _ h => List.mem_takeWhile_imp h⟩

theorem clears_skipComment (c : Cursor) : Clears c (skipComment c) := by
  unfold skipComment
  split
  · rename_i line hrest
    refine ⟨_, c.passes_skipWhile _, ?_⟩
    have hend : (c.skipWhile (· != '\n')).rest.head?.all (· == '\n') = true := by
      have hhead := List.head?_dropWhile_not (· != '\n') c.rest
      rw [Cursor.rest_skipWhile]
      cases hrest : c.rest.dropWhile (· != '\n') with
      | nil => rfl
      | cons => simpa [hrest] using hhead
    rw [hrest]
    exact .comment (.of_line (fun _ h => List.mem_takeWhile_imp (p := (· != '\n')) h) hend)
  · exact ⟨[], .refl c, .done⟩

theorem Scanner.Reaches.clears {s : Scanner} {cursor} (h : s.Reaches cursor) :
    Clears s.cursor cursor := by
  obtain ⟨start, hstart, rfl⟩ := h.cursor
  have hclears : Clears s.cursor start := by
    rcases hstart with rfl | rfl
    · exact ⟨[], .refl _, .done⟩
    · exact clears_lineContent _
  exact (hclears.trans (clears_blanks _)).trans (clears_skipComment _)

/-! ## Spellings -/

/-- Between quotes, `written` stands for `text`. -/
inductive Quotes (quote : Char) : List Char → List Char → Prop
  | nil : Quotes quote [] []
  | char {c written text} (hc : c ≠ '\n' ∧ c ≠ '\\' ∧ c ≠ quote)
    (more : Quotes quote written text) : Quotes quote (c :: written) (c :: text)
  | escape (e : Char) {written text} (more : Quotes quote written text) :
      Quotes quote ('\\' :: e :: written) (unescaped e :: text)

/-- The text between the two ends of a token; one that stands for layout has none. -/
inductive Kind.Spells : Kind → List Char → Prop
  | newline : Spells .newline ['\n']
  | indent : Spells .indent []
  | dedent : Spells .dedent []
  | eof : Spells .eof []
  | ident (name : String) : Spells (.ident name) name.toList
  | keyword (word : Keyword) : Spells (.keyword word) word.text.toList
  | number {text} (h : text ≠ []) : Spells (numberKind text) text
  | str {quote written text} (hquote : quote = '"' ∨ quote = '\'') (h : Quotes quote written text) :
    Spells (.str (String.ofList text)) (quote :: (written ++ [quote]))
  | color (text : String) : Spells (.color text) text.toList
  | symbol (symbol : Symbol) : Spells (.symbol symbol) symbol.text.toList

theorem quotes_of_stringBody {quote rest text n} (h : stringBody quote rest = some (text, n)) :
    ∃ written, rest.take n = written ++ [quote] ∧ Quotes quote written text := by
  fun_induction stringBody quote rest generalizing text n with
  | case1 | case2 | case3 => cases h
  | case4 e rest _ ih =>
    obtain ⟨⟨text', n'⟩, hbody, heq⟩ := Option.map_eq_some_iff.mp h
    cases heq
    obtain ⟨written, htake, hquotes⟩ := ih hbody
    exact ⟨'\\' :: e :: written, by simp [htake], .escape e hquotes⟩
  | case5 =>
    cases h
    exact ⟨[], rfl, .nil⟩
  | case6 c rest hfeed hescape hquote ih =>
    obtain ⟨⟨text', n'⟩, hbody, heq⟩ := Option.map_eq_some_iff.mp h
    cases heq
    obtain ⟨written, htake, hquotes⟩ := ih hbody
    exact ⟨c :: written, by simp [htake], .char ⟨hfeed, hescape, hquote⟩ hquotes⟩

theorem Symbol.text_of_ofPair? {c d symbol} (h : ofPair? c d = some symbol) :
    symbol.text.toList = [c, d] := by
  obtain ⟨entry, hfind, rfl⟩ := Option.map_eq_some_iff.mp h
  have hentries : ∀ entry ∈ pairs, entry.2.2.text.toList = [entry.1, entry.2.1] := by decide
  have hfound := List.find?_some hfind
  simp only [Bool.and_eq_true, beq_iff_eq] at hfound
  rw [hentries entry (List.mem_of_find?_eq_some hfind), hfound.1, hfound.2]

theorem Symbol.text_of_ofSingle? {c symbol} (h : ofSingle? c = some symbol) :
    symbol.text.toList = [c] := by
  obtain ⟨entry, hfind, rfl⟩ := Option.map_eq_some_iff.mp h
  have hentries : ∀ entry ∈ singles, entry.2.text.toList = [entry.1] := by decide
  rw [hentries entry (List.mem_of_find?_eq_some hfind), beq_iff_eq.mp (List.find?_some hfind :)]

theorem spells_wordKind (word : List Char) : (wordKind word).Spells word := by
  unfold wordKind
  simp only
  split
  · rename_i keyword hword
    unfold Keyword.ofWord? at hword
    have hspells := Kind.Spells.keyword keyword
    rwa [beq_iff_eq.mp (List.find?_some hword :), String.toList_ofList] at hspells
  · have hspells := Kind.Spells.ident (String.ofList word)
    rwa [String.toList_ofList] at hspells

theorem lexeme_ne_nil {c rest} (h : startsNumber c rest = true) :
    Number.lexeme (c :: rest) ≠ [] := by
  have hsignificand : Number.significandLexeme (c :: rest) ≠ [] := by
    unfold Number.significandLexeme
    by_cases hc : c.isDigit = true
    · simp only [Number.digitsOf, List.takeWhile_cons, hc, if_true]
      split <;> simp
    · obtain ⟨rfl, hdigit⟩ : c = '.' ∧ rest.head?.any Char.isDigit = true := by
        simpa [startsNumber, hc] using h
      obtain ⟨d, hhead, hd⟩ := (Option.any_eq_true _ _).mp hdigit
      obtain ⟨rest, rfl⟩ := List.head?_eq_some_iff.mp hhead
      simp [Number.digitsOf, hc, hd]
  unfold Number.lexeme
  split
  · contradiction
  · simp [*]

theorem Lexed.spells {c rest kind n} (h : Lexed c rest kind n) :
    kind.Spells ((c :: rest).take n) := by
  cases h with
  | @pair _ symbol hnext hsymbol =>
    obtain ⟨rest, rfl⟩ := List.head?_eq_some_iff.mp hnext
    have hspells := Kind.Spells.symbol symbol
    rwa [Symbol.text_of_ofPair? hsymbol] at hspells
  | string hbody hquote =>
    obtain ⟨written, htake, hquotes⟩ := quotes_of_stringBody hbody
    rw [List.take_succ_cons, htake]
    exact .str hquote hquotes
  | color hdigits hc =>
    obtain ⟨-, heq⟩ := Option.ite_none_right_eq_some.mp hdigits
    cases heq
    rw [hc, List.take_succ_cons, ← List.prefix_iff_eq_take.mp (List.takeWhile_prefix _)]
    have hspells := Kind.Spells.color (String.ofList ('#' :: rest.takeWhile isHexDigit))
    rwa [String.toList_ofList] at hspells
  | number hstarts =>
    have hne := lexeme_ne_nil hstarts
    rw [Nat.max_eq_right (List.length_pos_iff.mpr hne),
      ← List.prefix_iff_eq_take.mp (Number.isPrefix_lexeme (c :: rest))]
    exact .number hne
  | @single symbol hsymbol =>
    have hspells := Kind.Spells.symbol symbol
    rwa [Symbol.text_of_ofSingle? hsymbol] at hspells
  | word =>
    rw [List.take_succ_cons, ← List.prefix_iff_eq_take.mp (List.takeWhile_prefix _)]
    exact spells_wordKind _

/-! ## Scans -/

/-- The tokens of a text from byte `offset` on: gaps and spellings by turns, and a gap at the
end. -/
inductive Laid : Nat → List Char → List Token → Prop
  | done {offset gap} (h : Gap [] false gap) : Laid offset gap []
  | token {offset gap span rest t tokens} (hgap : Gap (span ++ rest) false gap)
      (hspan : t.kind.Spells span) (hstart : t.start = offset + byteLength gap)
      (hstop : t.stop = t.start + byteLength span) (more : Laid t.stop rest tokens) :
    Laid offset (gap ++ (span ++ rest)) (t :: tokens)

/-- Within the text, tokens end no sooner than they start, and start no sooner than the one before
ends. -/
theorem Laid.isChain {offset text tokens} (h : Laid offset text tokens) :
    (offset :: (tokens.flatMap fun t => [t.start, t.stop]) ++ [offset + byteLength text]).IsChain
    (· ≤ ·) := by
  induction h with
  | done => simp
  | @token offset gap span rest t _ _ _ hstart hstop _ ih =>
    have hend : t.stop + byteLength rest = offset + byteLength (gap ++ (span ++ rest)) := by
      simp only [hstop, hstart, byteLength_append, Nat.add_assoc]
    rw [hend] at ih
    refine .cons_cons ?_ (.cons_cons ?_ ih)
    · rw [hstart]
      exact Nat.le_add_right _ _
    · rw [hstop]
      exact Nat.le_add_right _ _

theorem Laid.of_clears {c d} (h : Clears c d) {tokens} (hlaid : Laid d.offset d.rest tokens) :
    Laid c.offset c.rest tokens := by
  obtain ⟨gap, hpasses, hgap⟩ := h
  rw [hpasses.offset] at hlaid
  rw [hpasses.rest]
  generalize hoffset : c.offset + byteLength gap = offset at hlaid
  generalize d.rest = text at hlaid hgap
  cases hlaid with
  | done hdone => exact .done (.append (by simpa using hgap) hdone)
  | @token _ gap' span rest t _ hgap' hspan hstart hstop more =>
    rw [← List.append_assoc]
    refine .token (hgap.append hgap') hspan ?_ hstop more
    rw [hstart, ← hoffset, byteLength_append, Nat.add_assoc]

namespace Scanner

/-- What a step does to the text in front of the cursor. -/
def Step.Lays (c : Cursor) : Step → Prop
  | emit t next => ∃ d span, Clears c d ∧ d.Passes span next.cursor ∧ t.kind.Spells span ∧
      t.start = d.offset ∧ t.stop = next.cursor.offset
  | skip next => Clears c next.cursor
  | finish t => ∃ d, Clears c d ∧ d.rest = [] ∧ t.kind.Spells [] ∧ t.start = d.offset ∧
    t.stop = d.offset

theorem lays_step {s : Scanner} {result} (h : s.step = .ok result) : result.Lays s.cursor := by
  cases h ▸ stepped_step s with
  | owed => exact ⟨s.cursor, [], ⟨[], .refl _, .done⟩, .refl _, .dedent, rfl, rfl⟩
  | opens => exact ⟨_, [], clears_lineContent _, .refl _, .indent, rfl, rfl⟩
  | closes => exact ⟨_, [], clears_lineContent _, .refl _, .dedent, rfl, rfl⟩
  | closesLast hreaches => exact ⟨_, [], hreaches.clears, .refl _, .dedent, rfl, rfl⟩
  | finishes hreaches hrest => exact ⟨_, hreaches.clears, hrest, .eof, rfl, rfl⟩
  | skips hreaches hrest => exact hreaches.clears.trans ⟨_, Cursor.passes_next hrest, .feed .done⟩
  | ends hreaches hrest =>
    exact ⟨_, _, hreaches.clears, Cursor.passes_next hrest, .newline, rfl, rfl⟩
  | @reads cursor _ _ _ _ n hreaches hrest _ hlex =>
    exact ⟨_, _, hreaches.clears, cursor.passes_skip n, hrest ▸ hlex.spells, rfl, rfl⟩

theorem laid_of_scans {s : Scanner} {tokens} (h : s.Scans tokens) :
    Laid s.cursor.offset s.cursor.rest tokens := by
  induction h with
  | finish hstep =>
    obtain ⟨d, hclears, hrest, hspells, hstart, hstop⟩ := lays_step hstep
    refine Laid.of_clears hclears ?_
    rw [hrest]
    exact .token .done hspells hstart (hstop.trans hstart.symm) (.done .done)
  | skip hstep _ ih => exact .of_clears (lays_step hstep) ih
  | emit hstep _ ih =>
    obtain ⟨d, span, hclears, hpasses, hspells, hstart, hstop⟩ := lays_step hstep
    refine Laid.of_clears hclears ?_
    rw [hpasses.rest]
    exact .token .done hspells hstart (by rw [hstop, hpasses.offset, hstart]) (hstop ▸ ih)

end Scanner

/-- A scan loses no text: the tokens stand in order within the source, each is spelled by its bytes,
and only blanks, line feeds and comments are left between them. -/
theorem laid_of_scan {source : String} {tokens : List Token} (h : scan source = .ok tokens) :
    Laid 0 source.toList tokens ∧
      (0 :: (tokens.flatMap fun t => [t.start, t.stop]) ++ [byteLength source.toList]).IsChain
      (· ≤ ·) := by
  have hlaid : Laid 0 source.toList tokens := Scanner.laid_of_scans (Scanner.scans_of_tokens h)
  exact ⟨hlaid, by simpa using hlaid.isChain⟩

/-- Escaped quotes and line feeds, letters of several bytes, comments on their own and at the
end. -/
def gapped : String :=
  "// é\n\nif x1 >= .5e1 // à\n\ty := 'ü\\'\\\n' +\n  \"a\\\"\"\n\t#00ff00\r\n1. // ß"

theorem gapped_laid : ∃ tokens, scan gapped = .ok tokens ∧ tokens.length = 19 ∧
    Laid 0 gapped.toList tokens ∧
    (0 :: (tokens.flatMap fun t => [t.start, t.stop]) ++ [byteLength gapped.toList]).IsChain
    (· ≤ ·) := by
  obtain ⟨tokens, h, hcount⟩ : ∃ tokens, scan gapped = .ok tokens ∧
    decide (tokens.length = 19) = true :=
    eq_ok_of_any (by decide +kernel)
  exact ⟨tokens, h, of_decide_eq_true hcount, laid_of_scan h⟩

end Pine

end IndicatorCompiler
