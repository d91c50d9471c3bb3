import IndicatorCompiler.Proofs.LexemeLine
import IndicatorCompiler.Proofs.Positions
import IndicatorCompiler.Proofs.PragmaFree
import IndicatorCompiler.Proofs.ScanPairs

/-!
# Line endings do not matter

Two scanners walk over a text and over the same text with a carriage return in front of every line
feed.  They stand at the same places: between tokens a carriage return is a blank, in a comment it
is skipped like everything else, and a token ends where its line ends.  So they emit tokens of the
same kinds on the same lines, and a parser sees no difference.  Pragmas are found on the same lines
as well, with the same digits.
-/

namespace IndicatorCompiler

open Text (Breaks Cursor)

/-! ## Carriage returns -/

namespace Text

/-- The text with a carriage return in front of every line feed. -/
def withReturns : List Char → List Char
  | [] => []
  | c :: rest => if c = '\n' then '\r' :: '\n' :: withReturns rest else c :: withReturns rest

/-- The same, but a line feed that stands first stays as it is. -/
def facing : List Char → List Char
  | [] => []
  | c :: rest => c :: withReturns rest

/-- A text without carriage returns, and without line feeds behind a backslash. -/
structure Plain (text : List Char) : Prop where
  return_not_mem : '\r' ∉ text
  not_escaped : ¬ ['\\', '\n'] <:+: text

theorem withReturns_feed (rest : List Char) :
    withReturns ('\n' :: rest) = '\r' :: '\n' :: withReturns rest := rfl

theorem withReturns_char {c} (h : c ≠ '\n') (rest : List Char) :
    withReturns (c :: rest) = c :: withReturns rest := by
  rw [withReturns, if_neg h]

theorem withReturns_line {line} (h : '\n' ∉ line) (rest : List Char) :
    withReturns (line ++ rest) = line ++ withReturns rest := by
  induction line with
  | nil => rfl
  | cons c line ih =>
    have hc : c ≠ '\n' := fun hc => h (by simp [hc])
    have hline : '\n' ∉ line := fun hmem => h (by simp [hmem])
    rw [List.cons_append, withReturns_char hc, ih hline, List.cons_append]

theorem count_withReturns (text : List Char) : (withReturns text).count '\n' = text.count '\n' := by
  induction text with
  | nil => rfl
  | cons c rest ih =>
    by_cases hc : c = '\n'
    · simp [hc, withReturns_feed, ih]
    · simp [withReturns_char hc, List.count_cons_of_ne hc, ih]

theorem count_facing (text : List Char) : (facing text).count '\n' = text.count '\n' := by
  cases text with
  | nil => rfl
  | cons c rest => simp [facing, List.count_cons, count_withReturns]

/-- Only carriage returns are new. -/
theorem head?_withReturns_eq {c} (hc : c ≠ '\r') (hfeed : c ≠ '\n') (text : List Char) :
    (withReturns text).head? = some c ↔ text.head? = some c := by
  cases text with
  | nil => rfl
  | cons d rest =>
    by_cases hd : d = '\n'
    · simp [hd, withReturns_feed, hc.symm, hfeed.symm]
    · simp [withReturns_char hd]

theorem Plain.suffix {text rest} (h : Plain text) (hrest : rest <:+ text) : Plain rest :=
  ⟨fun hmem => h.return_not_mem (hrest.subset hmem),
    fun hfound => h.not_escaped (hfound.trans hrest.isInfix)⟩

/-- The line that a text starts with.  It does not end with a backslash in front of a line feed, and
what follows it ends a line with carriage returns as well. -/
theorem Plain.exists_line {text} (h : Plain text) :
    ∃ line tail, text = line ++ tail ∧ '\n' ∉ line ∧ Breaks tail ∧ Breaks (withReturns tail) ∧
      (tail = [] ∨ line.getLast? ≠ some '\\') := by
  cases text using induction_lines with
  | last _ hline => exact ⟨text, [], by simp, hline, .text, .text, .inl rfl⟩
  | more line rest hline =>
    refine ⟨line, '\n' :: rest, rfl, hline, .feed _, .returned _,
      .inr fun hlast => h.not_escaped ?_⟩
    obtain ⟨before, rfl⟩ := List.getLast?_eq_some_iff.mp hlast
    exact ⟨before, rest, by simp⟩

end Text

open Text (withReturns facing Plain)

/-! ## Scanners side by side -/

namespace Pine

/-- The cursor and its counterpart in the text with carriage returns; what is left there is what
`turn` makes of what is left here. -/
structure Mirrors (turn : List Char → List Char) (source : List Char) (c d : Cursor) : Prop where
  here : c.At source
  there : d.At (withReturns source)
  rest : d.rest = turn c.rest

/-- Tokens that no parser tells apart. -/
def alike : View where
  Same := Alike fun p q => p.line = q.line
  kind h := h.1
  line h := h.2

variable {source : List Char} {c d : Cursor}

/-- The line of a cursor is told by the line feeds that are left. -/
theorem Mirrors.line_eq {turn : List Char → List Char} (h : Mirrors turn source c d)
    (hturn : ∀ text, (turn text).count '\n' = text.count '\n') :
    c.position.line = d.position.line := by
  obtain ⟨⟨before, hsource, -, hp⟩, ⟨before', hsource', -, hp'⟩, hrest⟩ := h
  have hcount := congrArg (List.count '\n') hsource
  have hcount' := congrArg (List.count '\n') hsource'
  rw [List.count_append] at hcount hcount'
  rw [Text.count_withReturns, hrest, hturn] at hcount'
  rw [hp, hp', Text.line_advance, Text.line_advance]
  omega

/-! ## Layout -/

/-- Carriage returns have no columns. -/
theorem content_withReturns (columns : Nat) (inComment : Bool) (text : List Char) :
    content columns inComment (withReturns text) =
      ((content columns inComment text).1, withReturns (content columns inComment text).2) := by
  induction text generalizing columns inComment with
  | nil => rfl
  | cons ch rest ih =>
    by_cases hfeed : ch = '\n'
    · subst hfeed
      rw [Text.withReturns_feed]
      cases inComment <;> simpa [content_cons] using ih 0 false
    · have hslash : (withReturns rest).head? = some '/' ↔ rest.head? = some '/' :=
        Text.head?_withReturns_eq (by decide) (by decide) rest
      rw [Text.withReturns_char hfeed]
      simp only [content_cons, if_neg hfeed, hslash]
      repeat' split
      all_goals first
        | exact ih _ _
        | rw [Text.withReturns_char hfeed]

theorem isEmpty_withReturns (text : List Char) : (withReturns text).isEmpty = text.isEmpty := by
  cases text with
  | nil => rfl
  | cons c rest => by_cases hc : c = '\n' <;> simp [withReturns, hc]

theorem dropWhile_withReturns {p : Char → Bool} (hfeed : p '\n' = false) (hreturn : p '\r' = true)
    (text : List Char) : (withReturns text).dropWhile p = facing (text.dropWhile p) := by
  induction text with
  | nil => rfl
  | cons ch rest ih =>
    by_cases hch : ch = '\n'
    · simp [hch, Text.withReturns_feed, hfeed, hreturn, facing]
    · rw [Text.withReturns_char hch]
      cases hp : p ch with
      | true => rw [List.dropWhile_cons_of_pos hp, List.dropWhile_cons_of_pos hp, ih]
      | false => simp [hp, facing]

theorem uncommented_facing (text : List Char) :
    uncommented (facing text) = facing (uncommented text) := by
  by_cases hcomment : ['/', '/'] <+: text
  · obtain ⟨rest, rfl⟩ := hcomment
    exact dropWhile_withReturns (p := (· != '\n')) rfl rfl rest
  · rw [uncommented_of_not hcomment, uncommented_of_not]
    cases text with
    | nil => exact hcomment
    | cons ch rest =>
      rwa [facing, comment_iff, Text.head?_withReturns_eq (by decide) (by decide), ← comment_iff]

theorem ahead_mirrors (h : Mirrors withReturns source c d) :
    Mirrors facing source (ahead c) (ahead d) where
  here := at_skipComment (h.here.skipWhile _)
  there := at_skipComment (h.there.skipWhile _)
  rest := by rw [rest_ahead, rest_ahead, h.rest, dropWhile_withReturns rfl rfl, uncommented_facing]

/-! ## Steps -/

namespace Scanner

/-- A token of the text is a token of the text with carriage returns, and takes no line feed. -/
theorem lexeme_withReturns {ch rest} (hplain : Plain (ch :: rest)) (hch : ch ≠ '\n') {kind n}
    (h : lexeme ch rest = .ok (kind, n)) :
    lexeme ch (withReturns rest) = .ok (kind, n) ∧
      (ch :: withReturns rest).drop n = withReturns ((ch :: rest).drop n) ∧
      '\n' ∉ (ch :: rest).take n ∧ '\n' ∉ (ch :: withReturns rest).take n := by
  obtain ⟨line, tail, rfl, hline, hends, hends', hlast⟩ :=
    (hplain.suffix (List.suffix_cons ch rest)).exists_line
  have hword : '\n' ∉ ch :: line := by simp [hch.symm, hline]
  have hread : lexeme ch line = .ok (kind, n) := by
    rcases hlast with rfl | hlast
    · rwa [List.append_nil] at h
    · rwa [lexeme_append hends ch hlast] at h
  have hlength : n ≤ (ch :: line).length := le_of_lexeme hread
  have hdrop : '\n' ∉ (ch :: line).drop n := fun hmem => hword (List.mem_of_mem_drop hmem)
  have htake (more : List Char) : '\n' ∉ (ch :: line ++ more).take n := by
    rw [List.take_append_of_le_length hlength]
    exact fun hmem => hword (List.mem_of_mem_take hmem)
  rw [Text.withReturns_line hline, ← List.cons_append, ← List.cons_append,
    List.drop_append_of_le_length hlength, List.drop_append_of_le_length hlength,
    Text.withReturns_line hdrop]
  refine ⟨?_, rfl, htake _, htake _⟩
  rcases hlast with rfl | hlast
  · rwa [withReturns, List.append_nil]
  · rw [lexeme_append hends' ch hlast, hread]

/-- Behind blanks and comments, both scanners find the same. -/
theorem meets_withReturns (hplain : Plain source) {s} (h : Mirrors facing source s.cursor d) :
    Meets False (fun s d => Mirrors withReturns source s.cursor d) s d := by
  have hd := h.rest
  cases hc : s.cursor.rest with
  | nil =>
    rw [hc, facing] at hd
    exact .text hc hd fun _ => ⟨h.here, h.there, by rw [hd, hc]; rfl⟩
  | cons ch rest =>
    rw [hc, facing] at hd
    by_cases hfeed : ch = '\n'
    · subst hfeed
      have hnext : Mirrors withReturns source s.cursor.next d.next :=
        ⟨h.here.next, h.there.next, by rw [rest_next hc, rest_next hd]⟩
      refine .feed hc hd ?_ (fun _ => hnext) fun _ => hnext
      rw [continuesLine_eq, continuesLine_eq, hnext.rest, content_withReturns, isEmpty_withReturns]
    · refine .read hc hd hfeed nofun fun kind n hlexeme => ?_
      have hrest : Plain (ch :: rest) := by
        obtain ⟨before, hsource, -, -⟩ := h.here
        rw [hc] at hsource
        exact hplain.suffix ⟨before, hsource.symm⟩
      obtain ⟨hread, hdrop, htake, htake'⟩ := lexeme_withReturns hrest hfeed hlexeme
      refine ⟨hread, by simp [htake, htake'], fun _ => ⟨h.here.skip n, h.there.skip n, ?_⟩⟩
      rw [Cursor.rest_skip, Cursor.rest_skip, hc, hd, hdrop]

theorem beside_withReturns (hplain : Plain source) {s} (h : Mirrors withReturns source s.cursor d) :
    Beside (fun p q => p.line = q.line) False (fun s d => Mirrors withReturns source s.cursor d)
      s d := by
  have hahead {c d : Cursor} (h : Mirrors withReturns source c d) :
      (ahead c).position.line = (ahead d).position.line :=
    (ahead_mirrors h).line_eq Text.count_facing
  refine .both (pairs_step (h.line_eq Text.count_withReturns) (fun _ => h) (fun _ _ _ => ?_)
    fun _ _ => ⟨hahead h, meets_withReturns hplain (ahead_mirrors h)⟩)
  have hsame := content_withReturns 0 false s.cursor.rest
  rw [← h.rest, ← lineContent_eq, ← lineContent_eq] at hsame
  obtain ⟨hcolumns, hrest⟩ := Prod.mk.inj hsame
  have hline : Mirrors withReturns source (lineContent s.cursor).2 (lineContent d).2 :=
    ⟨at_toContent 0 false h.here, at_toContent 0 false h.there, hrest⟩
  exact ⟨hcolumns, by rw [hrest, isEmpty_withReturns], hline.line_eq Text.count_withReturns,
    fun _ _ _ => hline, hahead hline, fun _ => meets_withReturns hplain (ahead_mirrors hline)⟩

end Scanner

/-! ## Programs -/

theorem ending_alike {tokens tokens'} (h : List.Forall₂ alike.Same tokens tokens') :
    alike.Same (Stream.ofTokens tokens).ending (Stream.ofTokens tokens').ending := by
  have hreverse := List.forall₂_reverse_iff.mpr h
  simp only [Stream.ofTokens, List.getLast?_eq_head?_reverse]
  generalize tokens.reverse = ts, tokens'.reverse = us at hreverse
  cases hreverse with
  | nil => exact ⟨rfl, rfl⟩
  | cons hlast => exact ⟨rfl, hlast.2⟩

theorem ofSource_withReturns {source} (hplain : Plain source.toList) {program}
    (h : Program.ofSource source = .ok program) :
    Program.ofSource (.ofList (withReturns source.toList)) = .ok program := by
  unfold Program.ofSource at h ⊢
  split at h
  · cases h
  · rename_i tokens hscan
    have hstart : Mirrors withReturns source.toList (.ofText source.toList)
        (.ofText (withReturns source.toList)) := ⟨Cursor.at_ofText _, Cursor.at_ofText _, rfl⟩
    obtain ⟨tokens', hscan', halike⟩ :=
      (Scanner.follows_tokens (fun _ _ => Scanner.beside_withReturns hplain)
        hstart).read_of_ok hscan
    have hscan'' : scan (.ofList (withReturns source.toList)) = .ok tokens' := by
      unfold scan
      rw [String.toList_ofList]
      exact hscan'
    rw [hscan'']
    rcases Program.agrees_ofTokens halike (ending_alike halike) (Scanner.valid_of_tokens hscan) with
      ⟨program', hok, hok', -⟩ | ⟨e, f, herror, -, -⟩
    · simp only [hok, hok'] at h ⊢
      exact h
    · simp only [herror] at h
      cases h

end Pine

/-! ## Pragmas -/

namespace Version

theorem pragmasFrom_withReturns {text} (h : '\r' ∉ text) (line : Nat) :
    pragmasFrom line (Text.splitLines (withReturns text)) =
      pragmasFrom line (Text.splitLines text) := by
  induction text using Text.induction_lines generalizing line with
  | last content hcontent =>
    have hsame := Text.withReturns_line hcontent []
    rw [List.append_nil, withReturns, List.append_nil] at hsame
    rw [hsame]
  | more content rest hcontent ih =>
    have hreturn : '\r' ∉ content := fun hmem => h (by simp [hmem])
    have hrest : '\r' ∉ rest := fun hmem => h (by simp [hmem])
    have hline : '\n' ∉ content ++ ['\r'] := by simp [hcontent]
    rw [Text.withReturns_line hcontent, Text.withReturns_feed, List.append_cons,
      Text.splitLines_append hline, Text.splitLines_append hcontent]
    simp only [pragmasFrom, pragmaDigits?_return hreturn, ih hrest]

end Version

/-! ## The compiler -/

theorem ok_of_bind {ε α β : Type} {x} {f : α → Except ε β} {b} (h : (x >>= f) = .ok b) :
    ∃ a, x = .ok a ∧ f a = .ok b := by
  cases x with
  | error e => cases h
  | ok a => exact ⟨a, rfl, h⟩

theorem sourceVersion_withReturns {source} (h : '\r' ∉ source.toList) (options : CompileOptions) :
    sourceVersion (.ofList (withReturns source.toList)) options = sourceVersion source options := by
  have hpragmas : Version.pragmas (.ofList (withReturns source.toList)) =
    Version.pragmas source := by
    unfold Version.pragmas
    rw [String.toList_ofList, Version.pragmasFrom_withReturns h]
  unfold sourceVersion
  rw [hpragmas]

/-- Indicator source is compiled only through its program. -/
theorem loweredScript?_congr {source source'}
    (h : Pine.Program.ofSource source' = Pine.Program.ofSource source) (language : Language)
    (version : Option Nat) :
    loweredScript? source' language version = loweredScript? source language version := by
  unfold loweredScript?
  rw [h]

theorem language_of_takenForPine {source options} (h : TakenForPine source options) :
    options.language ≠ .script := by
  rcases h with h | ⟨h, -⟩ <;> simp [h]

/-- **Line endings do not matter.**  Indicator source that is accepted is accepted with a carriage
return in front of every line feed as well, and nothing of what is compiled changes. -/
theorem compile_withReturns {source : String} {options : CompileOptions} {compiled : Compiled}
    (hplain : Plain source.toList) (hpine : TakenForPine source options)
    (h : compile source options = .ok compiled) :
    compile (.ofList (withReturns source.toList)) options = .ok compiled := by
  obtain ⟨program, hprogram, -, -⟩ := exists_program_of_compile h hpine
  have hsame : Pine.Program.ofSource (.ofList (withReturns source.toList)) =
    Pine.Program.ofSource source := by
    rw [Pine.ofSource_withReturns hplain hprogram, hprogram]
  unfold compile at h ⊢
  rw [sourceVersion_withReturns hplain.return_not_mem]
  obtain ⟨version, hversion, h⟩ := ok_of_bind h
  obtain ⟨lowered, hlowered, h⟩ := ok_of_bind h
  obtain ⟨n, rfl⟩ := exists_version_of_ok hpine hversion hlowered
  obtain ⟨program', -, rfl⟩ :=
    exists_program_of_loweredScript? (language_of_takenForPine hpine) hlowered
  rw [hversion]
  show (loweredScript? (.ofList (withReturns source.toList)) options.language (some n) >>= _) = _
  rw [loweredScript?_congr hsame, hlowered]
  exact h

/-- A comment, a block and a sum that goes on over a line end. -/
def severalLines : String := "//@version=6\n// up\nif close\n    x = \"up\"\nx = 4 + (\n  1)\n"

theorem severalLines_withReturns : ∃ compiled, compile severalLines ⟨.auto, none⟩ = .ok compiled ∧
    compiled.version = some 6 ∧
      compile (.ofList (withReturns severalLines.toList)) ⟨.auto, none⟩ = .ok compiled := by
  obtain ⟨compiled, h, hversion⟩ : ∃ compiled, compile severalLines ⟨.auto, none⟩ = .ok compiled ∧
      decide (compiled.version = some 6) = true := eq_ok_of_any (by decide +kernel)
  have hplain : Plain severalLines.toList := ⟨by decide +kernel, by decide +kernel⟩
  have hpine : TakenForPine severalLines ⟨.auto, none⟩ := .inr ⟨rfl, by decide +kernel⟩
  exact ⟨compiled, h, of_decide_eq_true hversion, compile_withReturns hplain hpine h⟩

end IndicatorCompiler
