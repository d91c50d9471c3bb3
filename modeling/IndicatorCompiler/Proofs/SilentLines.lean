import Mathlib.Data.List.DropRight
import Mathlib.Data.List.TakeWhile
import IndicatorCompiler.Proofs.LexemeLine
import IndicatorCompiler.Proofs.ScanPairs
import IndicatorCompiler.Proofs.Succeeds

/-!
# Layout that tokens do not show

Lines that are blank or hold nothing but a comment can be put in anywhere, and a line can be wrapped
between two tokens, without a change to the kinds of the tokens.  In both cases two scanners walk
over texts that begin alike, and behind the place where the texts part the same text is left to
both.
-/

namespace IndicatorCompiler.Pine

open Text (Cursor Ends)
open List (cons_append suffix_cons suffix_refl mem_cons_self append_assoc dropWhile_append_of_pos)

/-- The kinds of the tokens of a text, if it can be scanned. -/
def kinds? (source : String) : Option (List Kind) := (scan source).toOption.map (·.map (·.kind))

/-- Any two places will do. -/
abbrev anywhere : Text.Position → Text.Position → Prop := fun _ _ => True

theorem kinds_eq_of_alike {near : Text.Position → Text.Position → Prop} {ts us}
    (h : List.Forall₂ (Alike near) ts us) : ts.map (·.kind) = us.map (·.kind) := by
  rw [← List.forall₂_eq_eq_eq, List.forall₂_map_left_iff, List.forall₂_map_right_iff]
  exact h.imp fun _ _ halike => halike.1

theorem Scanner.Follows.kinds_eq {near : Text.Position → Text.Position → Prop} {strict : Prop}
    {result result'} (h : Follows near strict result result') (hstrict : strict) :
    result.toOption.map (·.map (·.kind)) = result'.toOption.map (·.map (·.kind)) := by
  cases h with
  | fail h =>
    obtain ⟨e', rfl⟩ := h hstrict
    rfl
  | read h => exact congrArg some (kinds_eq_of_alike h)

/-! ## Texts that begin alike -/

/-- Every comment in the text ends within it. -/
def Bare (text : List Char) : Prop := ∀ rest, '/' :: '/' :: rest <:+ text → '\n' ∈ rest

/-- The last line of the text is not blank. -/
def Inked (text : List Char) : Prop :=
  ∃ c rest, c :: rest <:+ text ∧ '\n' ∉ c :: rest ∧ isInlineBlank c = false

variable {text first rest : List Char} {c : Char}

theorem Bare.suffix (h : Bare text) (hrest : rest <:+ text) : Bare rest :=
  fun _ hcomment => h _ (hcomment.trans hrest)

/-- What stands behind a character has the same last line, unless the character is the first that
counts. -/
theorem Inked.of_cons (h : Inked (c :: text))
    (hc : '\n' ∈ c :: text ∨ isInlineBlank c = true) : Inked text := by
  obtain ⟨d, rest, hsuffix, hline, hblank⟩ := h
  rcases List.suffix_cons_iff.mp hsuffix with heq | hsuffix
  · obtain ⟨rfl, rfl⟩ := List.cons.inj heq
    rcases hc with hc | hc
    · exact absurd hc hline
    · simp [hblank] at hc
  · exact ⟨d, rest, hsuffix, hline, hblank⟩

theorem Inked.behind_feed (h : Inked text) (hrest : '\n' :: rest <:+ text) : Inked rest := by
  obtain ⟨c, line, hline, hfeed, hblank⟩ := h
  rcases List.suffix_or_suffix_of_suffix hline hrest with h | h
  · exact Inked.of_cons ⟨c, line, h, hfeed, hblank⟩ (.inl mem_cons_self)
  · exact absurd (h.subset mem_cons_self) hfeed

theorem content_blanks (columns : Nat) {blanks} (h : ∀ c ∈ blanks, isInlineBlank c = true)
    (rest : List Char) : content columns false (blanks ++ rest) =
      content (columns + (blanks.count ' ' + indentWidth * blanks.count '\t')) false rest := by
  induction blanks generalizing columns with
  | nil => rfl
  | cons c blanks ih =>
    obtain ⟨hc, hblanks⟩ := List.forall_mem_cons.mp h
    simp only [isInlineBlank, Bool.or_eq_true, beq_iff_eq] at hc
    rw [cons_append, content_cons]
    rcases hc with (rfl | rfl) | rfl
    · simp [ih _ hblanks, Nat.add_assoc, Nat.add_comm, Nat.add_left_comm]
    · simp [ih _ hblanks, Nat.mul_add, Nat.add_assoc, Nat.add_comm]
    · simp [ih _ hblanks]

/-- From a state of the search for content on, it is found within the beginning of a text, or only
behind it.  The latter is so only if the last line of the beginning is blank or has a comment. -/
inductive Found (columns : Nat) (inComment : Bool) (first : List Char) : Prop
  | within (k : Nat) {rest : List Char} (hne : rest ≠ [])
    (hblank : ∀ c ∈ rest.head?, isInlineBlank c = false)
      (hsuffix : rest <:+ first)
      (h : ∀ tail, tail.head? ≠ some '/' → content columns inComment (first ++ tail) =
        (k, rest ++ tail))
  | behind (k : Nat) (b : Bool)
      (h : ∀ tail, tail.head? ≠ some '/' → content columns inComment (first ++ tail) =
        content k b tail)
      (hlast : (inComment = true → '\n' ∈ first) → Bare first → ¬ Inked first)

theorem Found.cons {columns k inComment b} (h : Found k b first)
    (hgoes : ∀ tail, tail.head? ≠ some '/' → content columns inComment (c :: first ++ tail) =
      content k b (first ++ tail))
    (hinked : (inComment = true → '\n' ∈ c :: first) → Bare (c :: first) → Inked (c :: first) →
      (b = true → '\n' ∈ first) ∧ Inked first) :
    Found columns inComment (c :: first) := by
  cases h with
  | within k' hne hblank hsuffix h =>
    exact .within k' hne hblank (hsuffix.trans (suffix_cons c first)) fun tail htail =>
      (hgoes tail htail).trans (h tail htail)
  | behind k' b' h hlast =>
    refine .behind k' b' (fun tail htail => (hgoes tail htail).trans (h tail htail))
      fun hcomment hbare hink => ?_
    obtain ⟨hfeed, hink⟩ := hinked hcomment hbare hink
    exact hlast hfeed (hbare.suffix (suffix_cons c first)) hink

theorem found (columns : Nat) (inComment : Bool) (first : List Char) :
    Found columns inComment first := by
  induction first generalizing columns inComment with
  | nil =>
    refine .behind columns inComment (fun _ _ => rfl) fun _ _ hink => ?_
    obtain ⟨c, rest, hsuffix, -⟩ := hink
    simp at hsuffix
  | cons c first ih =>
    by_cases hfeed : c = '\n'
    · exact (ih 0 false).cons (fun tail _ => by rw [cons_append, content_cons, if_pos hfeed])
        fun _ _ hink => ⟨by simp, hink.of_cons (.inl (by simp [hfeed]))⟩
    cases inComment with
    | true =>
      refine (ih columns true).cons
        (fun tail _ => by rw [cons_append, content_cons, if_neg hfeed, if_pos rfl])
        fun hline _ hink => ⟨fun _ => ?_, hink.of_cons (.inl (hline rfl))⟩
      simpa [Ne.symm hfeed] using hline rfl
    | false =>
      by_cases hblank : isInlineBlank c = true
      · exact (ih _ false).cons
          (fun tail _ => @content_blanks columns [c] (by simpa using hblank) _)
          fun _ _ hink => ⟨by simp, hink.of_cons (.inr hblank)⟩
      have hblank' := hblank
      simp only [isInlineBlank, Bool.or_eq_true, beq_iff_eq, not_or] at hblank'
      have hcons (tail : List Char) : content columns false (c :: first ++ tail) =
          if c = '/' ∧ (first ++ tail).head? = some '/' then content columns true (first ++ tail)
          else (columns, c :: first ++ tail) := by
        simp [content_cons, hfeed, hblank'.1.1, hblank'.1.2, hblank'.2]
      by_cases hslash : c = '/' ∧ first.head? = some '/'
      · obtain ⟨rfl, hhead⟩ := hslash
        obtain ⟨rest, rfl⟩ := List.head?_eq_some_iff.mp hhead
        refine (ih columns true).cons (fun tail _ => (hcons tail).trans (if_pos ⟨rfl, rfl⟩))
          fun _ hbare hink => ?_
        have hmem : '\n' ∈ '/' :: rest := List.mem_cons_of_mem _ (hbare rest (suffix_refl _))
        exact ⟨fun _ => hmem, hink.of_cons (.inl (List.mem_cons_of_mem _ hmem))⟩
      · refine .within columns (List.cons_ne_nil c first) (by simpa using hblank) (suffix_refl _)
          fun tail htail => ?_
        refine (hcons tail).trans (if_neg fun hboth => hslash ⟨hboth.1, ?_⟩)
        cases first with
        | nil => exact absurd hboth.2 htail
        | cons => exact hboth.2

/-- So is what stands behind blanks and a comment. -/
theorem ahead_append (first : List Char) :
    (∃ rest, rest ≠ [] ∧ rest <:+ first ∧ ∀ tail, tail.head? ≠ some '/' →
      uncommented ((first ++ tail).dropWhile isInlineBlank) = rest ++ tail) ∨
    (∀ tail, uncommented ((first ++ '\n' :: tail).dropWhile isInlineBlank) = '\n' :: tail) ∧
      (Bare first → ∀ c ∈ first, isInlineBlank c = true) := by
  induction first with
  | nil => exact .inr ⟨fun _ => rfl, by simp⟩
  | cons c first ih =>
    by_cases hblank : isInlineBlank c = true
    · have hdrop (tail : List Char) :
          (c :: first ++ tail).dropWhile isInlineBlank =
            (first ++ tail).dropWhile isInlineBlank := by
        rw [cons_append, List.dropWhile_cons_of_pos hblank]
      simp only [hdrop]
      have hfirst := suffix_cons c first
      rcases ih with ⟨rest, hne, hsuffix, h⟩ | ⟨h, hbare⟩
      · exact .inl ⟨rest, hne, hsuffix.trans hfirst, h⟩
      · exact .inr ⟨h, fun hc => List.forall_mem_cons.mpr ⟨hblank, hbare (hc.suffix hfirst)⟩⟩
    have hdrop (tail : List Char) :
        (c :: first ++ tail).dropWhile isInlineBlank = c :: first ++ tail := by
      rw [cons_append, List.dropWhile_cons_of_neg hblank]
    simp only [hdrop]
    by_cases hslash : c = '/' ∧ first.head? = some '/'
    · obtain ⟨rfl, hhead⟩ := hslash
      obtain ⟨rest, rfl⟩ := List.head?_eq_some_iff.mp hhead
      have hrest (tail : List Char) : uncommented ('/' :: '/' :: rest ++ tail) =
          (rest ++ tail).dropWhile (· != '\n') := rfl
      simp only [hrest, List.dropWhile_append]
      by_cases hend : (rest.dropWhile (· != '\n')).isEmpty = true
      · refine .inr ⟨fun tail => by rw [if_pos hend]; rfl, fun hbare => ?_⟩
        have hmem := hbare rest (suffix_refl _)
        rw [List.isEmpty_iff, List.dropWhile_eq_nil_iff] at hend
        exact absurd (hend _ hmem) (by decide)
      · refine .inl ⟨rest.dropWhile (· != '\n'), by simpa using hend, ?_, fun _ _ => if_neg hend⟩
        exact (List.dropWhile_suffix _).trans ((suffix_cons ..).trans (suffix_cons ..))
    · refine .inl ⟨c :: first, by simp, suffix_refl _, fun tail htail => uncommented_of_not ?_⟩
      rw [cons_append, comment_iff]
      rintro ⟨hc, hhead⟩
      cases first with
      | nil => exact htail hhead
      | cons => exact hslash ⟨hc, hhead⟩

namespace Scanner

variable {strict : Prop} {Q : Scanner → Cursor → Prop} {s : Scanner} {d : Cursor}

/-! ## The same text is left to both -/

theorem meets_of_rest_eq (hQ : ∀ s d, d.rest = s.cursor.rest → Q s d) (h : d.rest = s.cursor.rest) :
    Meets strict Q s d := by
  cases hc : s.cursor.rest with
  | nil => exact .text hc (h.trans hc) fun _ => hQ _ _ h
  | cons c rest =>
    have hd := h.trans hc
    by_cases hfeed : c = '\n'
    · subst hfeed
      have hnext : d.next.rest = s.cursor.next.rest := by rw [rest_next hc, rest_next hd]
      refine .feed hc hd ?_ (fun _ => hQ _ _ hnext) fun _ => hQ _ _ hnext
      rw [continuesLine_eq, continuesLine_eq, hnext]
    · refine .read hc hd hfeed (fun _ e he => ⟨e, he⟩) fun kind n hlexeme =>
        ⟨hlexeme, rfl, fun _ => hQ _ _ ?_⟩
      rw [Cursor.rest_skip, Cursor.rest_skip, h]

/-- At the start of a line, content with the same columns and the same text behind it will do. -/
theorem enters_of_content_eq (hQ : ∀ s d, d.rest = s.cursor.rest → Q s d)
    (h : content 0 false d.rest = content 0 false s.cursor.rest) :
    Enters anywhere strict Q s d := by
  rw [← lineContent_eq, ← lineContent_eq] at h
  obtain ⟨hcolumns, hrest⟩ := Prod.mk.inj h
  refine ⟨hcolumns, by rw [hrest], trivial, fun _ _ _ => hQ _ _ hrest, trivial,
    fun _ => meets_of_rest_eq hQ ?_⟩
  exact (rest_ahead _).trans (by rw [hrest]; exact (rest_ahead _).symm)

theorem pairs_of_rest_eq (hQ : ∀ s d, d.rest = s.cursor.rest → Q s d) (h : d.rest = s.cursor.rest) :
    Pairs anywhere strict Q s.step (s.moved d).step :=
  pairs_step trivial (fun _ => hQ _ _ h) (fun _ _ _ => enters_of_content_eq hQ (by rw [h]))
    fun _ _ => ⟨trivial,
      meets_of_rest_eq hQ ((rest_ahead d).trans (by rw [h]; exact (rest_ahead _).symm))⟩

/-- A token within the common beginning of two texts. -/
theorem meets_within {tail tail'} (hc : s.cursor.rest = c :: (first ++ tail))
    (hd : d.rest = c :: (first ++ tail')) (hfeed : c ≠ '\n')
    (hread : lexeme c (first ++ tail) = lexeme c first)
    (hfail : strict → ∀ e, lexeme c first = .error e → ∃ e', lexeme c (first ++ tail') = .error e')
    (hok : ∀ read, lexeme c first = .ok read → lexeme c (first ++ tail') = .ok read)
    (hQ : ∀ kind n, lexeme c first = .ok (kind, n) → ∀ (next e : Cursor) (depth : Nat), next.rest =
      (c :: first).drop n ++ tail → e.rest = (c :: first).drop n ++ tail' → Q
      { s with cursor := next, lineStart := ((c :: first).take n).contains '\n', depth := depth }
        e) :
    Meets strict Q s d := by
  refine .read hc hd hfeed (fun hstrict e he => hfail hstrict e (hread ▸ he))
    fun kind n hlexeme => ?_
  rw [hread] at hlexeme
  have hn : n ≤ (c :: first).length := le_of_lexeme hlexeme
  rw [← cons_append] at hc hd
  rw [← cons_append, ← cons_append, List.take_append_of_le_length hn,
    List.take_append_of_le_length hn]
  refine ⟨hok _ hlexeme, rfl, fun _ => hQ kind n hlexeme _ _ _ ?_ ?_⟩
  · rw [Cursor.rest_skip, hc, List.drop_append_of_le_length hn]
  · rw [Cursor.rest_skip, hd, List.drop_append_of_le_length hn]

theorem step_skips (howed : s.owed = 0) (hstart : s.lineStart = false)
    (hrest : (ahead s.cursor).rest = '\n' :: rest)
    (h : 0 < s.depth ∨ continuesLine (ahead s.cursor).next = true) :
    s.step = .ok (.skip (s.moved (ahead s.cursor).next)) := by
  have hlayout : s.layout = .ok (none, s) := by
    by_cases hdepth : 0 < s.depth
    · rw [layout, if_neg (by simp [howed]), if_pos hdepth, ← hstart]
    · simp [layout, howed, hdepth, hstart]
  simp only [step, hlayout]
  change (s.moved (ahead s.cursor)).contentStep = _
  simp only [contentStep, moved, hrest, if_true, if_pos h, hstart]

end Scanner

/-! ## Lines put in -/

/-- The line is blank, or holds nothing but a comment. -/
inductive Silent : List Char → Prop
  | blank {blanks} (h : ∀ c ∈ blanks, isInlineBlank c = true) : Silent blanks
  | comment {blanks text} (h : ∀ c ∈ blanks, isInlineBlank c = true) (htext : '\n' ∉ text) :
    Silent (blanks ++ '/' :: '/' :: text)

theorem content_comment (columns : Nat) (h : '\n' ∉ text) (rest : List Char) :
    content columns true (text ++ '\n' :: rest) = content 0 false rest := by
  induction text with
  | nil => rw [List.nil_append, content_cons, if_pos rfl]
  | cons c text ih =>
    have hc : c ≠ '\n' := fun hc => h (by simp [hc])
    rw [cons_append, content_cons, if_neg hc, if_pos rfl, ih fun hmem => h (by simp [hmem])]

section

variable {line : List Char}

theorem Silent.content (h : Silent line) (rest : List Char) :
    Pine.content 0 false (line ++ '\n' :: rest) = Pine.content 0 false rest := by
  cases h with
  | blank h => rw [content_blanks 0 h, content_cons, if_pos rfl]
  | comment h htext =>
    have hslash : '\n' ∉ '/' :: _ := List.not_mem_cons_of_ne_of_not_mem (by decide) htext
    rw [append_assoc, content_blanks 0 h, cons_append, content_cons, content_comment _ hslash]
    rfl

theorem Silent.ahead (h : Silent line) (rest : List Char) :
    uncommented ((line ++ '\n' :: rest).dropWhile isInlineBlank) = '\n' :: rest := by
  cases h with
  | blank h =>
    rw [dropWhile_append_of_pos h]
    rfl
  | @comment blanks text h htext =>
    rw [append_assoc, dropWhile_append_of_pos h]
    change (text ++ '\n' :: rest).dropWhile (· != '\n') = _
    rw [dropWhile_append_of_pos fun c hc => by simpa using fun heq : c = '\n' => htext (heq ▸ hc)]
    rfl

variable {before after : List Char}

/-- Where a scanner of the text stands, and one of the text with the line put in. -/
inductive Inserts (before after line : List Char) (s : Scanner) (d : Cursor) : Prop
  | ahead {first : List Char} (hfirst : first <:+ before)
      (hc : s.cursor.rest = first ++ '\n' :: after)
      (hd : d.rest = first ++ '\n' :: (line ++ '\n' :: after))
  /-- The second scanner is in front of the new line, at the start of a line or on one that goes
  on. -/
  | here (howed : s.owed = 0) (hc : s.cursor.rest = after) (hd : d.rest = line ++ '\n' :: after)
      (h : s.depth = 0 ∧ s.lineStart = true ∨
        s.lineStart = false ∧ (0 < s.depth ∨ continuesLine s.cursor = true))
  | behind (h : d.rest = s.cursor.rest)

theorem isEmpty_append_cons (first : List Char) (c : Char) (rest : List Char) :
    (first ++ c :: rest).isEmpty = false := by
  cases first <;> rfl

/-- The line makes no difference to where content is found. -/
theorem Silent.content_append (h : Silent line) (first after : List Char) :
    ∃ k rest rest', Pine.content 0 false (first ++ '\n' :: after) = (k, rest) ∧
      Pine.content 0 false (first ++ '\n' :: (line ++ '\n' :: after)) = (k, rest') ∧
      rest'.isEmpty = rest.isEmpty ∧
      (rest' = rest ∨ ∃ last, last <:+ first ∧ rest = last ++ '\n' :: after ∧
        rest' = last ++ '\n' :: (line ++ '\n' :: after)) := by
  cases found 0 false first with
  | @within k last hne _ hsuffix hfound =>
    have hempty : (last ++ '\n' :: (line ++ '\n' :: after)).isEmpty =
        (last ++ '\n' :: after).isEmpty := by rw [isEmpty_append_cons, isEmpty_append_cons]
    exact ⟨k, last ++ '\n' :: after, last ++ '\n' :: (line ++ '\n' :: after), hfound _ (by simp),
      hfound _ (by simp), hempty, .inr ⟨last, hsuffix, rfl, rfl⟩⟩
  | behind k b hfound =>
    have hcontent (tail : List Char) :
        Pine.content 0 false (first ++ '\n' :: tail) = Pine.content 0 false tail := by
      rw [hfound _ (by simp), content_cons, if_pos rfl]
    exact ⟨_, _, _, hcontent after, (hcontent _).trans (h.content after), rfl, .inl rfl⟩

namespace Scanner

variable {s : Scanner} {d : Cursor}

theorem meets_inserts (hbefore : before.getLast? ≠ some '\\') (hline : Silent line)
    (howed : s.owed = 0) (hfirst : first <:+ before) (hc : s.cursor.rest = first ++ '\n' :: after)
    (hd : d.rest = first ++ '\n' :: (line ++ '\n' :: after)) :
    Meets True (Inserts before after line) s d := by
  cases first with
  | nil =>
    have hcontinues : continuesLine d.next = continuesLine s.cursor.next := by
      rw [continuesLine_eq, continuesLine_eq, rest_next hc, rest_next hd, hline.content]
    exact .feed hc hd hcontinues
      (fun h => .here howed (rest_next hc) (rest_next hd) (.inr ⟨rfl, h⟩))
      fun h => .here howed (rest_next hc) (rest_next hd) (.inl ⟨h, rfl⟩)
  | cons c first =>
    have hsuffix := (suffix_cons c first).trans hfirst
    rw [cons_append] at hc hd
    by_cases hfeed : c = '\n'
    · subst hfeed
      have hnext {start : Bool} : Inserts before after line
          { s with cursor := s.cursor.next, lineStart := start } d.next :=
        .ahead hsuffix (rest_next hc) (rest_next hd)
      refine .feed hc hd ?_ (fun _ => hnext) fun _ => hnext
      obtain ⟨k, rest, rest', hrest, hrest', hempty, -⟩ := hline.content_append first after
      rw [continuesLine_eq, continuesLine_eq, rest_next hc, rest_next hd, hrest, hrest', hempty]
    · have hread (tail : List Char) : lexeme c (first ++ '\n' :: tail) = lexeme c first := by
        refine lexeme_append (.feed tail) c fun hlast => hbefore ?_
        obtain ⟨more, rfl⟩ := hsuffix
        rw [List.getLast?_append, hlast]
        rfl
      exact meets_within hc hd hfeed (hread _) (fun _ e he => ⟨e, (hread _).trans he⟩)
        (fun read hread' => (hread _).trans hread') fun _ n _ _ _ _ hnext he =>
          .ahead ((List.drop_suffix n _).trans hfirst) hnext he

theorem meets_inserts_ahead (hbefore : before.getLast? ≠ some '\\') (hline : Silent line)
    (howed : s.owed = 0) (hfirst : first <:+ before) {c} (hc : c.rest = first ++ '\n' :: after)
    (hd : d.rest = first ++ '\n' :: (line ++ '\n' :: after)) (level : Nat) :
    Meets True (Inserts before after line) (s.onLine (ahead c) level) (ahead d) := by
  rcases ahead_append first with ⟨rest, -, hrest, h⟩ | ⟨h, -⟩
  · exact meets_inserts hbefore hline howed (hrest.trans hfirst)
      (by rw [onLine, rest_ahead, hc, h _ (by simp)]) (by rw [rest_ahead, hd, h _ (by simp)])
  · exact meets_inserts hbefore hline howed List.nil_suffix (by rw [onLine, rest_ahead, hc, h]; rfl)
      (by rw [rest_ahead, hd, h]; rfl)

theorem beside_inserts (hbefore : before.getLast? ≠ some '\\') (hline : Silent line) (s : Scanner)
    (d : Cursor) (h : Inserts before after line s d) :
    Beside anywhere True (Inserts before after line) s d := by
  have hbehind : ∀ s d, d.rest = s.cursor.rest → Inserts before after line s d := fun _ _ => .behind
  cases h with
  | behind h => exact .both (pairs_of_rest_eq hbehind h)
  | here howed hc hd h =>
    rcases h with ⟨hdepth, hstart⟩ | ⟨hstart, hgoes⟩
    · refine .both (pairs_step trivial (fun hpos => absurd howed (Nat.ne_of_gt hpos))
        (fun _ _ _ => ?_) fun _ hcontent => ?_)
      · exact enters_of_content_eq hbehind (by rw [hd, hc, hline.content])
      · simp [hdepth, hstart] at hcontent
    · have hahead : (ahead d).rest = '\n' :: after := by rw [rest_ahead, hd, hline.ahead]
      refine .second (step_skips (s := s.moved d) howed hstart hahead (hgoes.imp_right fun h => ?_))
        (.behind ((rest_next hahead).trans hc.symm))
      change continuesLine (ahead d).next = true
      rwa [continuesLine_eq, rest_next hahead, ← hc, ← continuesLine_eq]
  | @ahead first hfirst hc hd =>
    refine .both (pairs_step trivial (fun _ => .ahead hfirst hc hd) (fun howed _ _ => ?_)
      fun howed _ => ⟨trivial, meets_inserts_ahead hbefore hline howed hfirst hc hd _⟩)
    obtain ⟨k, rest, rest', hrest, hrest', hempty, hsame⟩ := hline.content_append first after
    rw [← hc, ← lineContent_eq] at hrest
    rw [← hd, ← lineContent_eq] at hrest'
    obtain ⟨hk, hrest⟩ := Prod.mk.inj hrest
    obtain ⟨hk', hrest'⟩ := Prod.mk.inj hrest'
    rcases hsame with rfl | ⟨last, hlast, rfl, rfl⟩
    · refine enters_of_content_eq hbehind ?_
      rw [← lineContent_eq, ← lineContent_eq, hk, hk', hrest, hrest']
    · have hsuffix := hlast.trans hfirst
      exact ⟨hk'.trans hk.symm, by rw [hrest, hrest', hempty], trivial,
        fun _ _ _ => .ahead hsuffix hrest hrest', trivial,
        fun level => meets_inserts_ahead hbefore hline howed hsuffix hrest hrest' level⟩

end Scanner

/-- **Blank lines and comment lines do not matter.**  Put in behind any line feed, such a line makes
no difference to whether a text can be scanned, nor to the kinds of its tokens. -/
theorem kinds?_insertLine (hescape : ¬ ['\\', '\n'] <:+: before ++ '\n' :: after)
    (hline : Silent line) :
    kinds? (.ofList (before ++ '\n' :: (line ++ '\n' :: after))) = kinds?
    (.ofList (before ++ '\n' :: after)) := by
  have hbefore : before.getLast? ≠ some '\\' := fun hlast => hescape <| by
    obtain ⟨first, rfl⟩ := List.getLast?_eq_some_iff.mp hlast
    exact ⟨first, after, by simp⟩
  have hstart : Inserts before after line (.ofText (before ++ '\n' :: after))
      (.ofText (before ++ '\n' :: (line ++ '\n' :: after))) := .ahead (suffix_refl _) rfl rfl
  have hscan := Scanner.follows_tokens (Scanner.beside_inserts hbefore hline) hstart
  simp only [kinds?, scan, String.toList_ofList]
  exact (hscan.kinds_eq trivial).symm

/-- A wrapped line in a block, and a comment that is put in between its two parts. -/
theorem kinds?_insertLine_wrapped :
    Silent "\t // c\\".toList ∧ ∃ ks, kinds? "if a\n    b = 1 +\n  2\nd()\n" = some ks ∧
      ks.length = 16 ∧ kinds? "if a\n    b = 1 +\n\t // c\\\n  2\nd()\n" = some ks := by
  have hline : Silent "\t // c\\".toList :=
    @Silent.comment ['\t', ' '] " c\\".toList (by simp [isInlineBlank]) (by decide)
  obtain ⟨ks, hks, hlength⟩ : ∃ ks, kinds? "if a\n    b = 1 +\n  2\nd()\n" = some ks ∧
      decide (ks.length = 16) = true := (Option.any_eq_true _ _).mp (by decide +kernel)
  refine ⟨hline, ks, hks, of_decide_eq_true hlength, ?_⟩
  have hsame :=
    @kinds?_insertLine _ "if a\n    b = 1 +".toList "  2\nd()\n".toList (by decide +kernel) hline
  exact hsame.trans hks

end

/-! ## Lines that are wrapped -/

/-- A text whose last line is not blank and has no comment, blanks that continue a line, and
content. -/
structure Wrappable (before blanks after : List Char) : Prop where
  not_escaped : ¬ ['\\', '\n'] <:+: before ++ ['\n']
  inked : Inked before
  bare : Bare before
  blank : ∀ c ∈ blanks, isInlineBlank c = true
  columns : (blanks.count ' ' + indentWidth * blanks.count '\t') % indentWidth ≠ 0
  content : after.head?.any (fun c => !isInlineBlank c && c != '\n') = true
  not_comment : ¬ ['/', '/'] <+: after

/-- Where a scanner of the wrapped text stands, and one of the text with a blank instead. -/
inductive Wraps (before blanks after : List Char) (s : Scanner) (d : Cursor) : Prop
  | ahead {first : List Char} (hfirst : first <:+ before)
      (hc : s.cursor.rest = first ++ '\n' :: (blanks ++ after))
      (hd : d.rest = first ++ ' ' :: after)
      (h : s.lineStart = false ∨ Inked first)
  /-- Both scanners are in front of the same content. -/
  | here (hstart : s.lineStart = false)
      (h : d.rest.dropWhile isInlineBlank = s.cursor.rest.dropWhile isInlineBlank)
  | behind (h : d.rest = s.cursor.rest)

section

variable {before blanks after : List Char}

theorem Wrappable.lineContent_after (h : Wrappable before blanks after) (columns : Nat) :
    Pine.content columns false after = (columns, after) := by
  have hcontent := h.content
  have hcomment := h.not_comment
  cases after with
  | nil => simp at hcontent
  | cons c rest =>
    rw [comment_iff] at hcomment
    simp only [List.head?_cons, Option.any_some, isInlineBlank, Bool.and_eq_true, Bool.not_eq_true',
      Bool.or_eq_false_iff, beq_eq_false_iff_ne, bne_iff_ne] at hcontent
    simp [content_cons, hcontent, hcomment]

namespace Scanner

variable {s : Scanner} {d : Cursor}

theorem meets_wraps (h : Wrappable before blanks after)
    (hfirst : c :: first <:+ before)
    (hc : s.cursor.rest = c :: (first ++ '\n' :: (blanks ++ after)))
    (hd : d.rest = c :: (first ++ ' ' :: after)) : Meets False (Wraps before blanks after) s d := by
  have hsuffix := (suffix_cons c first).trans hfirst
  have hescape : ¬ ['\\', '\n'] <:+: first ++ ['\n'] := fun hfound => h.not_escaped <| by
    obtain ⟨more, rfl⟩ := hsuffix
    rw [append_assoc]
    exact hfound.trans (List.suffix_append more _).isInfix
  by_cases hfeed : c = '\n'
  · subst hfeed
    have hink := h.inked.behind_feed hfirst
    have hnext {start : Bool} : Wraps before blanks after
        { s with cursor := s.cursor.next, lineStart := start } d.next :=
      .ahead hsuffix (rest_next hc) (rest_next hd) (.inr hink)
    refine .feed hc hd ?_ (fun _ => hnext) fun _ => hnext
    rw [continuesLine_eq, continuesLine_eq, rest_next hc, rest_next hd]
    cases found 0 false first with
    | within k _ _ _ hfound =>
      rw [hfound _ (by simp), hfound _ (by simp), isEmpty_append_cons, isEmpty_append_cons]
    | behind _ _ _ hlast => exact absurd hink (hlast (by simp) (h.bare.suffix hsuffix))
  · have hlast : first.getLast? ≠ some '\\' := fun hlast => hescape <| by
      obtain ⟨more, rfl⟩ := List.getLast?_eq_some_iff.mp hlast
      exact ⟨more, [], by simp⟩
    refine meets_within hc hd hfeed (lexeme_append (.feed _) c hlast) (by simp)
      (fun read hread => lexeme_append_of_ok (.blank _) hread)
      fun kind n hlexeme next e _ hnext he => ?_
    refine .ahead ((List.drop_suffix n _).trans hfirst) hnext he (.inl ?_)
    have hline := feed_not_mem_of_lexeme hfeed
      (fun hfound => hescape (hfound.trans (List.prefix_append first _).isInfix)) hlexeme
    simpa using hline

theorem meets_wraps_ahead (h : Wrappable before blanks after) (hne : first ≠ [])
    (hfirst : first <:+ before) (hc : s.cursor.rest = first ++ '\n' :: (blanks ++ after))
    (hd : d.rest = first ++ ' ' :: after) : Meets False (Wraps before blanks after) s d := by
  obtain ⟨c, rest, rfl⟩ := List.exists_cons_of_ne_nil hne
  exact meets_wraps h hfirst hc hd

theorem beside_wraps (h : Wrappable before blanks after) (s : Scanner) (d : Cursor)
    (hs : Wraps before blanks after s d) :
    Beside anywhere False (Wraps before blanks after) s d := by
  have hbehind : ∀ s d, d.rest = s.cursor.rest → Wraps before blanks after s d := fun _ _ => .behind
  cases hs with
  | behind hs => exact .both (pairs_of_rest_eq hbehind hs)
  | here hstart hs =>
    refine .both (pairs_step trivial (fun _ => .here hstart hs) (fun _ _ hstart' => ?_) fun _ _ =>
      ⟨trivial, meets_of_rest_eq hbehind ?_⟩)
    · simp [hstart] at hstart'
    · exact (rest_ahead d).trans (by rw [hs]; exact (rest_ahead _).symm)
  | @ahead first hfirst hc hd hline =>
    rcases ahead_append first with ⟨rest, hne, hrest, hahead⟩ | ⟨hahead, hblank⟩
    · refine .both (pairs_step trivial (fun _ => .ahead hfirst hc hd hline) (fun _ _ hstart => ?_)
        fun _ _ => ⟨trivial, meets_wraps_ahead h hne (hrest.trans hfirst) ?_ ?_⟩)
      · have hink := hline.resolve_left (by simp [hstart])
        cases found 0 false first with
        | behind _ _ _ hlast => exact absurd hink (hlast (by simp) (h.bare.suffix hfirst))
        | @within k last hne hhead hlast hfound =>
          have hcontent := lineContent_eq s.cursor
          have hcontent' := lineContent_eq d
          rw [hc, hfound _ (by simp)] at hcontent
          rw [hd, hfound _ (by simp)] at hcontent'
          obtain ⟨hk, hlast'⟩ := Prod.mk.inj hcontent
          obtain ⟨hk', hlast''⟩ := Prod.mk.inj hcontent'
          have hsuffix := hlast.trans hfirst
          obtain ⟨c, more, rfl⟩ := List.exists_cons_of_ne_nil hne
          refine ⟨hk'.trans hk.symm, by rw [hlast', hlast'']; rfl, trivial,
            fun _ _ _ => .ahead hsuffix hlast' hlast'' (.inl rfl), trivial, fun level => ?_⟩
          rcases ahead_append (c :: more) with ⟨rest, hne, hrest, hahead⟩ | ⟨_, hblank⟩
          · exact meets_wraps_ahead h hne (hrest.trans hsuffix)
              (by rw [onLine, rest_ahead, hlast', hahead _ (by simp)])
              (by rw [rest_ahead, hlast'', hahead _ (by simp)])
          · have hblank := hblank (h.bare.suffix hsuffix) c mem_cons_self
            simp [hhead c rfl] at hblank
      · rw [onLine, rest_ahead, hc, hahead _ (by simp)]
      · rw [rest_ahead, hd, hahead _ (by simp)]
    · -- only blanks are left of the line, so that the first scanner is to wrap it
      have hblank := hblank (h.bare.suffix hfirst)
      have hstart : s.lineStart = false := hline.resolve_right fun hinked => by
        obtain ⟨c, rest, hsuffix, -, hink⟩ := hinked
        simp [hblank c (hsuffix.subset mem_cons_self)] at hink
      by_cases howed : 0 < s.owed
      · exact .both (pairs_step trivial (fun _ => .ahead hfirst hc hd hline)
          (fun hzero => absurd hzero (Nat.ne_of_gt howed)) fun hzero =>
          absurd hzero (Nat.ne_of_gt howed))
      have hfeed : (ahead s.cursor).rest = '\n' :: (blanks ++ after) := by
        rw [rest_ahead, hc, hahead]
      refine .first (step_skips (Nat.eq_zero_of_not_pos howed) hstart hfeed (.inr ?_)) rfl
        (.here hstart ?_)
      · rw [continuesLine_eq, rest_next hfeed, content_blanks 0 h.blank, h.lineContent_after,
          Nat.zero_add]
        have hne : after ≠ [] := fun hnil => by simpa [hnil] using h.content
        rw [Bool.and_eq_true]
        exact ⟨by simpa using hne, decide_eq_true h.columns⟩
      · change d.rest.dropWhile isInlineBlank = (ahead s.cursor).next.rest.dropWhile isInlineBlank
        rw [rest_next hfeed, hd, dropWhile_append_of_pos hblank, dropWhile_append_of_pos h.blank]
        rfl

end Scanner

/-- The last line of a text. -/
def lastLine (text : List Char) : List Char := text.rtakeWhile (· != '\n')

theorem suffix_lastLine {line} (h : line <:+ text) (hline : '\n' ∉ line) :
    line <:+ lastLine text := by
  obtain ⟨first, rfl⟩ := h
  rw [← List.reverse_prefix, lastLine, List.rtakeWhile, List.reverse_reverse, List.reverse_append,
    List.takeWhile_append_of_pos]
  · exact List.prefix_append _ _
  · intro c hc
    simpa using fun heq : c = '\n' => hline (heq ▸ List.mem_reverse.mp hc)

theorem inked_of_lastLine (hc : c ∈ lastLine text) (hblank : isInlineBlank c = false) :
    Inked text := by
  obtain ⟨first, rest, hsplit⟩ := List.append_of_mem hc
  have hsuffix : c :: rest <:+ lastLine text := hsplit ▸ List.suffix_append first _
  refine ⟨c, rest, hsuffix.trans (List.rtakeWhile_suffix _ _), fun hmem => ?_, hblank⟩
  have hfeed := List.mem_rtakeWhile_imp (hsuffix.subset hmem)
  simp at hfeed

theorem bare_of_lastLine (h : ¬ ['/', '/'] <:+: lastLine text) : Bare text := by
  intro rest hrest
  by_contra hfeed
  obtain ⟨first, hsplit⟩ := suffix_lastLine hrest (by simpa using hfeed)
  exact h ⟨first, rest, by rw [← hsplit]; simp⟩

/-- **Wrapped lines do not matter.**  A line that is continued on the next one, by columns that are
no multiple of an indentation, can be written as one line, and has tokens of the same kinds
there. -/
theorem kinds?_unwrapLine (hescape : ¬ ['\\', '\n'] <:+: before ++ '\n' :: (blanks ++ after))
    (hinked : ∃ c ∈ lastLine before, isInlineBlank c = false)
    (hbare : ¬ ['/', '/'] <:+: lastLine before)
    (hblanks : ∀ c ∈ blanks, c = ' ' ∨ c = '\t')
    (hcolumns : (blanks.count ' ' + indentWidth * blanks.count '\t') % indentWidth ≠ 0)
    (hafter : after.head?.any (fun c => !isInlineBlank c && c != '\n') = true)
    (hcomment : ¬ ['/', '/'] <+: after) {ks : List Kind}
    (hscan : kinds? (.ofList (before ++ '\n' :: (blanks ++ after))) = some ks) :
    kinds? (.ofList (before ++ ' ' :: after)) = some ks := by
  obtain ⟨c, hc, hblank⟩ := hinked
  have hwrap : Wrappable before blanks after := by
    refine ⟨fun hfound => hescape ?_, inked_of_lastLine hc hblank, bare_of_lastLine hbare,
      fun c hc => ?_, hcolumns, hafter, hcomment⟩
    · exact hfound.trans ⟨[], blanks ++ after, by simp⟩
    · rcases hblanks c hc with rfl | rfl <;> rfl
  have hstart : Wraps before blanks after (.ofText (before ++ '\n' :: (blanks ++ after)))
      (.ofText (before ++ ' ' :: after)) :=
    .ahead (suffix_refl _) rfl rfl (.inr hwrap.inked)
  have hfollows := Scanner.follows_tokens (Scanner.beside_wraps hwrap) hstart
  simp only [kinds?, scan, String.toList_ofList] at hscan ⊢
  cases hts : (Scanner.ofText (before ++ '\n' :: (blanks ++ after))).tokens with
  | error e =>
    rw [hts] at hscan
    cases hscan
  | ok ts =>
    rw [hts] at hscan
    obtain ⟨us, hus, halike⟩ := hfollows.read_of_ok hts
    change (Scanner.ofText (before ++ ' ' :: after)).tokens = .ok us at hus
    rw [hus, ← hscan]
    exact congrArg some (kinds_eq_of_alike halike).symm

/-- A sum in brackets in a block, wrapped behind a tab and a blank. -/
theorem kinds?_unwrapLine_block :
    ∃ ks, kinds? "if a\n    b = (1 \n\t + 2)\nd()\n" = some ks ∧ ks.length = 18 ∧
      kinds? "if a\n    b = (1  + 2)\nd()\n" = some ks := by
  obtain ⟨ks, hks, hlength⟩ : ∃ ks, kinds? "if a\n    b = (1 \n\t + 2)\nd()\n" = some ks ∧
      decide (ks.length = 18) = true := (Option.any_eq_true _ _).mp (by decide +kernel)
  refine ⟨ks, hks, of_decide_eq_true hlength, ?_⟩
  exact @kinds?_unwrapLine "if a\n    b = (1 ".toList ['\t', ' '] "+ 2)\nd()\n".toList
    (by decide +kernel) ⟨'1', by decide +kernel, by decide⟩ (by decide +kernel) (by simp)
    (by decide)
    (by decide) (by decide +kernel) ks hks

end

end IndicatorCompiler.Pine
