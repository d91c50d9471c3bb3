import IndicatorCompiler.Compile
import IndicatorCompiler.Proofs.IndicatorOutput
import IndicatorCompiler.Proofs.Pragmas

/-!
# Reported positions are real

Scanners keep the line and the column along with the offset while they read.  `positionAt` finds
them anew, by counting from the start of the text.  Both agree wherever a scanner can stand, because
a cursor is always what is left of the text after a stretch of it.  So every token says truly where
it starts, and so does every error: a scanner fails at its cursor, a parser at a token, and a
version at a line.
-/

namespace IndicatorCompiler

open Text (Cursor Position positionAt byteLength)

variable {source : String} {e : CompileError} {p : Position}

/-! ## Places of a text -/

namespace Text

/-- A character starts at the offset, or the text ends there, and the position is that of the
offset. -/
def PointsAt (source : String) (offset : Nat) (p : Position) : Prop :=
  (String.Pos.Raw.mk offset).IsValid source ∧ p = positionAt source.toList offset

/-- The position of some character, or of the end. -/
def Points (source : String) (p : Position) : Prop :=
  ∃ offset ≤ source.utf8ByteSize, PointsAt source offset p

theorem positionAt_go (before rest : List Char) (read : Nat) (p : Position) :
    positionAt.go (read + byteLength before) (before ++ rest) read p = p.advance before := by
  induction before generalizing read p with
  | nil =>
    cases rest with
    | nil => rfl
    | cons c rest => simp [positionAt.go, Position.advance]
  | cons c before ih =>
    have hpos : 0 < c.utf8Size := c.utf8Size_pos
    have hread : ¬ read + byteLength (c :: before) ≤ read := by
      simp only [byteLength_cons]
      omega
    rw [List.cons_append, positionAt.go, if_neg hread, byteLength_cons, ← Nat.add_assoc, ih]
    rfl

/-- What is counted while reading is what is found by counting from the start. -/
theorem positionAt_byteLength (before rest : List Char) :
    positionAt (before ++ rest) (byteLength before) = Position.start.advance before := by
  have hgo := positionAt_go before rest 0 .start
  rwa [Nat.zero_add] at hgo

theorem utf8ByteSize_ofList (text : List Char) :
    (String.ofList text).utf8ByteSize = byteLength text := by
  induction text with
  | nil => rfl
  | cons c rest ih =>
    rw [String.ofList_cons, String.utf8ByteSize_append, ih, String.utf8ByteSize_singleton,
      byteLength_cons]

theorem pointsAt_append {before rest} (h : source.toList = before ++ rest) :
    PointsAt source (byteLength before) (Position.start.advance before) := by
  refine ⟨String.Pos.Raw.isValid_iff_exists_append.mpr ?_, ?_⟩
  · refine ⟨String.ofList before, String.ofList rest, ?_, ?_⟩
    · rw [← String.ofList_append, ← h, String.ofList_toList]
    · rw [← utf8ByteSize_ofList]
      rfl
  · rw [h, positionAt_byteLength]

theorem PointsAt.points {offset p} (h : PointsAt source offset p) : Points source p :=
  ⟨offset, h.1.le_rawEndPos, h⟩

theorem Cursor.At.pointsAt {c : Cursor} (h : c.At source.toList) :
    PointsAt source c.offset c.position := by
  obtain ⟨before, hsource, hoffset, hposition⟩ := h
  rw [hoffset, hposition]
  exact pointsAt_append hsource

/-- A text is a line, or a line, its line feed and a text. -/
@[elab_as_elim]
theorem induction_lines {motive : List Char → Prop} (text : List Char)
    (last : ∀ line, '\n' ∉ line → motive line)
    (more : ∀ line rest, '\n' ∉ line → motive rest → motive (line ++ '\n' :: rest)) :
    motive text := by
  have hbehind : ∀ line, '\n' ∉ line → motive (line ++ text) := by
    induction text with
    | nil => simpa using last
    | cons c text ih =>
      intro line hline
      by_cases hc : c = '\n'
      · rw [hc]
        exact more line text hline (ih [] (by simp))
      · rw [List.append_cons]
        exact ih (line ++ [c]) (by simp [hline, Ne.symm hc])
  exact hbehind [] (by simp)

theorem splitLines_line {line} (h : '\n' ∉ line) : splitLines line = [line] := by
  induction line with
  | nil => rfl
  | cons c line ih =>
    rw [List.mem_cons, not_or] at h
    simp [splitLines, Ne.symm h.1, ih h.2]

theorem splitLines_append {line} (h : '\n' ∉ line) (rest : List Char) :
    splitLines (line ++ '\n' :: rest) = line :: splitLines rest := by
  induction line with
  | nil => simp [splitLines]
  | cons c line ih =>
    rw [List.mem_cons, not_or] at h
    simp [splitLines, Ne.symm h.1, ih h.2]

/-- A position counts the line feeds in front of it. -/
theorem line_advance (text : List Char) (p : Position) :
    (p.advance text).line = p.line + text.count '\n' := by
  induction text generalizing p with
  | nil => rfl
  | cons c text ih =>
    show ((p.after c).advance text).line = _
    rw [ih, Position.after]
    by_cases hc : c = '\n'
    · rw [if_pos hc, hc, List.count_cons_self]
      exact Nat.add_right_comm p.line 1 _
    · rw [if_neg hc, List.count_cons_of_ne hc]

theorem points_start (source : String) : Points source .start :=
  (Cursor.at_ofText source.toList).pointsAt.points

end Text

open Text (PointsAt Points)

/-! ## Tokens of indicators -/

namespace Pine

variable {source : String}

theorem at_toContent {source} (columns : Nat) (inComment : Bool) {text offset p}
    (h : Cursor.At source ⟨text, offset, p⟩) :
    (toContent columns inComment text offset p).2.At source := by
  induction text generalizing columns inComment offset p with
  | nil => exact h
  | cons c rest ih =>
    have hnext : Cursor.At source ⟨rest, offset + c.utf8Size, p.after c⟩ := h.next
    simp only [toContent]
    repeat' split
    all_goals first
      | exact ih _ _ hnext
      | exact h

theorem at_skipComment {source c} (h : c.At source) : (skipComment c).At source := by
  unfold skipComment
  split
  · exact h.skipWhile _
  · exact h

/-- The token says where it starts. -/
def Token.Stands (source : String) (t : Token) : Prop := PointsAt source t.start t.position

/-- The error says where it shows. -/
def LexError.Stands (source : String) (e : LexError) : Prop := PointsAt source e.offset e.position

namespace Scanner

/-- What a step gives stands in the source. -/
def Step.Stands (source : String) : Except LexError Step → Prop
  | .ok (.emit t next) => t.Stands source ∧ next.cursor.At source.toList
  | .ok (.skip next) => next.cursor.At source.toList
  | .ok (.finish t) => t.Stands source
  | .error e => e.Stands source

theorem stands_step {s : Scanner} (h : s.cursor.At source.toList) : Step.Stands source s.step := by
  have hcontent : (lineContent s.cursor).2.At source.toList := at_toContent 0 false h
  have hreached {cursor : Cursor} (hc : s.Reaches cursor) : cursor.At source.toList := by
    obtain ⟨start, hstart, rfl⟩ := hc.cursor
    refine at_skipComment (Cursor.At.skipWhile _ ?_)
    rcases hstart with rfl | rfl
    · exact h
    · exact hcontent
  have hstep := stepped_step s
  generalize s.step = result at hstep ⊢
  cases hstep with
  | owed => exact ⟨h.pointsAt, h⟩
  | opens | closes => exact ⟨hcontent.pointsAt, hcontent⟩
  | closesLast hc => exact ⟨(hreached hc).pointsAt, hreached hc⟩
  | finishes hc => exact (hreached hc).pointsAt
  | skips hc => exact (hreached hc).next
  | ends hc => exact ⟨(hreached hc).pointsAt, (hreached hc).next⟩
  | reads hc => exact ⟨(hreached hc).pointsAt, (hreached hc).skip _⟩
  | misplaced => exact hcontent.pointsAt
  | unreadable hc => exact (hreached hc).pointsAt

/-- All tokens of a scan stand in the source, and so does the error that ends it. -/
def Stand (source : String) : Except LexError (List Token) → Prop
  | .ok tokens => ∀ t ∈ tokens, t.Stands source
  | .error e => e.Stands source

theorem stand_tokens {s : Scanner} (h : s.cursor.At source.toList) : Stand source s.tokens := by
  fun_induction Scanner.tokens s with
  | case1 s e heq =>
    have hstep := stands_step h
    rw [heq] at hstep
    exact hstep
  | case2 s token heq =>
    have hstep := stands_step h
    rw [heq] at hstep
    intro t ht
    rw [List.mem_singleton.mp ht]
    exact hstep
  | case3 s next heq ih =>
    have hstep := stands_step h
    rw [heq] at hstep
    exact ih hstep
  | case4 s token next heq e herror ih =>
    have hstep := stands_step h
    rw [heq] at hstep
    have hrest := ih hstep.2
    rw [herror] at hrest
    exact hrest
  | case5 s token next heq rest hok ih =>
    have hstep := stands_step h
    rw [heq] at hstep
    have hrest := ih hstep.2
    rw [hok] at hrest
    intro t ht
    rcases List.mem_cons.mp ht with rfl | ht
    · exact hstep.1
    · exact hrest t ht

end Scanner

theorem stand_scan (source : String) : Scanner.Stand source (scan source) :=
  Scanner.stand_tokens (Cursor.at_ofText source.toList)

/-! ## Errors of indicators -/

/-- Equal tokens at a place of the source. -/
def standing (source : String) : View where
  Same t u := t = u ∧ Points source t.position
  kind h := by rw [h.1]
  line h := by rw [h.1]

theorem standing_ending {tokens} (h : ∀ t ∈ tokens, Points source t.position) :
    Points source (Stream.ofTokens tokens).ending.position := by
  unfold Stream.ofTokens
  simp only
  split
  · rename_i t heq
    exact h t (List.mem_of_getLast? heq)
  · exact Text.points_start source

/-- A parser fails at a token, or at the end. -/
theorem points_of_ofTokens {tokens} (hvalid : ∀ t ∈ tokens, t.kind.Valid)
    (h : ∀ t ∈ tokens, Points source t.position) {e} (he : Program.ofTokens tokens = .error e) :
    Points source e.position := by
  have hsame : List.Forall₂ (standing source).Same tokens tokens :=
    List.forall₂_same.mpr fun t ht => ⟨rfl, h t ht⟩
  rcases Program.agrees_ofTokens hsame ⟨rfl, standing_ending h⟩ hvalid with
    ⟨program, hok, _⟩ | ⟨e', f, herror, _, hfound⟩
  · rw [hok] at he
    cases he
  · rw [herror] at he
    cases he
    cases hfound with
    | found hpoints => exact hpoints.2

theorem points_of_ofSource {e} (he : Program.ofSource source = .error e) :
    Points source e.position := by
  have hscan := stand_scan source
  unfold Program.ofSource at he
  split at he
  · rename_i lexError heq
    rw [heq] at hscan
    cases he
    exact hscan.points
  · rename_i tokens heq
    rw [heq] at hscan
    split at he
    · rename_i parseError hparse
      cases he
      exact points_of_ofTokens (Scanner.valid_of_tokens heq)
        (fun t ht => (hscan t ht).points) hparse
    · cases he

end Pine

/-! ## Tokens of scripts -/

namespace Script

variable {source : String}

/-- The comment that a walk is in has started at a place of the source. -/
def TriviaMode.Stands (source : String) : TriviaMode → Prop
  | .blockComment start => Points source start
  | _ => True

/-- The walk ends in the source, or at the start of a comment. -/
def Walked (source : String) : Except LexError Cursor → Prop
  | .ok c => c.At source.toList
  | .error e => Points source e.position

theorem walked_trivia {mode : TriviaMode} {text offset p} (hmode : mode.Stands source)
    (h : Cursor.At source.toList ⟨text, offset, p⟩) :
    Walked source (trivia mode text offset p) := by
  fun_induction trivia mode text offset p with
  | case1 => exact hmode
  | case2 => exact h
  | case3 c rest offset p ih =>
    refine ih ?_ h.next
    split <;> trivial
  | case4 _ _ _ _ _ _ _ ih => exact ih trivial h.next.next
  | case5 _ _ _ _ _ _ _ ih | case6 _ _ _ _ ih => exact ih hmode h.next
  | case7 _ _ _ ih => exact ih trivial h.next
  | case8 _ _ _ ih => exact ih h.pointsAt.points h.next.next
  | case9 => exact h
  | case10 _ _ _ _ _ _ ih => exact ih trivial h.next
  | case11 => exact h

/-- The token says where it starts. -/
def Token.Stands (source : String) (t : Token) : Prop := PointsAt source t.start t.position

/-- What is read next stands in the source. -/
def Step.Stands (source : String) : Except LexError (Token × Option Cursor) → Prop
  | .ok (t, after?) => t.Stands source ∧ ∀ c ∈ after?, c.At source.toList
  | .error e => Points source e.position

theorem stands_next {c : Cursor} (h : c.At source.toList) : Step.Stands source (next c) := by
  have hwalked : Walked source (skipTrivia c) := walked_trivia trivial h
  unfold next
  split
  · rename_i e heq
    rw [heq] at hwalked
    exact hwalked
  · rename_i c' heq
    rw [heq] at hwalked
    split
    · exact ⟨hwalked.pointsAt, fun _ ht => (nomatch ht)⟩
    · split
      · exact hwalked.pointsAt.points
      · refine ⟨hwalked.pointsAt, fun after hafter => ?_⟩
        rw [← Option.mem_some.mp hafter]
        exact hwalked.skip _

/-- All tokens of a scan stand in the source, and the error that ends it is at a place of it. -/
def Stand (source : String) : Except LexError (List Token) → Prop
  | .ok tokens => ∀ t ∈ tokens, t.Stands source
  | .error e => Points source e.position

theorem stand_tokens {c} (h : c.At source.toList) : Stand source (tokens c) := by
  fun_induction tokens c with
  | case1 c e heq =>
    have hnext := stands_next h
    rw [heq] at hnext
    exact hnext
  | case2 c token heq =>
    have hnext := stands_next h
    rw [heq] at hnext
    intro t ht
    rw [List.mem_singleton.mp ht]
    exact hnext.1
  | case3 c token after heq e herror ih =>
    have hnext := stands_next h
    rw [heq] at hnext
    have hrest := ih (hnext.2 after rfl)
    rw [herror] at hrest
    exact hrest
  | case4 c token after heq rest hok ih =>
    have hnext := stands_next h
    rw [heq] at hnext
    have hrest := ih (hnext.2 after rfl)
    rw [hok] at hrest
    intro t ht
    rcases List.mem_cons.mp ht with rfl | ht
    · exact hnext.1
    · exact hrest t ht

theorem stand_scan (source : String) : Stand source (scan source) :=
  stand_tokens (Cursor.at_ofText source.toList)

/-! ## Errors of scripts -/

/-- Tokens at a place of the source. -/
def standing (source : String) : TokenClass :=
  ⟨fun t => t.kind.Valid ∧ Points source t.position, And.left⟩

theorem points_of_ofSource {e} (he : Program.ofSource source = .error e) :
    Points source e.position := by
  have hscan := stand_scan source
  unfold Program.ofSource at he
  split at he
  · rename_i lexError heq
    rw [heq] at hscan
    cases he
    exact hscan
  · rename_i tokens heq
    rw [heq] at hscan
    split at he
    · rename_i parseError hparse
      cases he
      -- A parser fails at a token.
      obtain ⟨hvalid, hlast⟩ := tokens_valid heq
      obtain ⟨t, ht, hposition⟩ := (Program.reads_ofTokens (T := standing source)
        (fun t ht => ⟨hvalid t ht, (hscan t ht).points⟩) hlast).2 _ hparse
      simpa [SyntaxError.position, hposition] using ht.2
    · cases he

end Script

/-! ## Lines of pragmas -/

namespace Version

variable {line : Nat}

theorem points_of_pragmasFrom_cons {text lines} (hfirst : Points source ⟨line, 1⟩)
    (hrest : ∀ p ∈ pragmasFrom (line + 1) lines, Points source ⟨p.line, 1⟩) :
    ∀ p ∈ pragmasFrom line (text :: lines), Points source ⟨p.line, 1⟩ := by
  intro p hp
  unfold pragmasFrom at hp
  split at hp
  · rcases List.mem_cons.mp hp with rfl | hp
    · exact hfirst
    · exact hrest p hp
  · exact hrest p hp

/-- Every pragma stands on a line of the source. -/
theorem points_of_pragmasFrom {before text} (hsource : source.toList = before ++ text)
    (hline : Position.start.advance before = ⟨line, 1⟩) :
    ∀ p ∈ pragmasFrom line (Text.splitLines text), Points source ⟨p.line, 1⟩ := by
  have hpoints {before text : List Char} {line : Nat} (hsource : source.toList = before ++ text)
      (hline : Position.start.advance before = ⟨line, 1⟩) : Points source ⟨line, 1⟩ :=
    hline ▸ (Text.pointsAt_append hsource).points
  induction text using Text.induction_lines generalizing before line with
  | last content hcontent =>
    rw [Text.splitLines_line hcontent]
    exact points_of_pragmasFrom_cons (hpoints hsource hline) fun p hp => (nomatch hp)
  | more content rest hcontent ih =>
    rw [Text.splitLines_append hcontent]
    have hrest : source.toList = (before ++ (content ++ ['\n'])) ++ rest := by simpa using hsource
    refine points_of_pragmasFrom_cons (hpoints hsource hline) (ih hrest ?_)
    have hbehind := Text.line_advance content ⟨line, 1⟩
    rw [List.count_eq_zero.mpr hcontent] at hbehind
    rw [Position.advance_append, hline, Position.advance_append]
    show Position.mk (_ + 1) 1 = _
    rw [hbehind]

theorem points_of_resolve {expected e} (h : resolve expected (pragmas source) = .error e)
    (hline : e.line? = some line) : Points source ⟨line, 1⟩ := by
  obtain ⟨pre, p, post, hfound, -, -, hp⟩ := line_of_resolve_eq_error h
  cases hline.symm.trans hp
  have hmem : p ∈ pragmas source := by simp [hfound]
  exact points_of_pragmasFrom (List.nil_append _).symm rfl p hmem

end Version

/-! ## Errors of the compiler -/

theorem error_of_bind {ε α β : Type} {x} {f : α → Except ε β} {e} (h : (x >>= f) = .error e) :
    x = .error e ∨ ∃ a, x = .ok a ∧ f a = .error e := by
  cases x with
  | error d =>
    cases h
    exact .inl rfl
  | ok a => exact .inr ⟨a, rfl, h⟩

theorem error_of_mapError {ε ε' α : Type} {x : Except ε α} {f : ε → ε'} {e}
    (h : x.mapError f = .error e) : ∃ d, x = .error d ∧ f d = e := by
  cases x with
  | error d =>
    cases h
    exact ⟨d, rfl, rfl⟩
  | ok a => cases h

theorem points_of_sourceVersion {options : CompileOptions}
    (h : sourceVersion source options = .error e) (hp : e.location? = some p) :
    Points source p := by
  unfold sourceVersion at h
  split at h
  · cases h
  · obtain ⟨versionError, hresolve, rfl⟩ := error_of_mapError h
    obtain ⟨line, hline, rfl⟩ := Option.map_eq_some_iff.mp hp
    exact Version.points_of_resolve hresolve hline

theorem points_of_loweredScript? {language : Language} {version}
    (h : loweredScript? source language version = .error e) (hp : e.location? = some p) :
    Points source p := by
  unfold loweredScript? at h
  split at h
  · cases h
  · cases h
  · cases h
    cases hp
  · rcases error_of_bind h with h | ⟨program, _, h⟩
    · obtain ⟨syntaxError, hread, rfl⟩ := error_of_mapError h
      cases hp
      exact Pine.points_of_ofSource hread
    · cases h

/-- A lowered script is not the source, and its errors have no place. -/
theorem points_of_compileScript {text : String} {lowered}
    (h : compileScript text lowered = .error e) (hp : e.location? = some p)
    (htext : lowered = false → text = source) : Points source p := by
  unfold compileScript at h
  rcases error_of_bind h with h | ⟨script, _, h⟩
  · obtain ⟨syntaxError, hread, rfl⟩ := error_of_mapError h
    cases lowered with
    | true => cases hp
    | false =>
      cases hp
      rw [htext rfl] at hread
      exact Script.points_of_ofSource hread
  · rcases error_of_bind h with h | ⟨surveyed, _, h⟩
    · obtain ⟨surveyError, _, rfl⟩ := error_of_mapError h
      cases surveyError <;> cases lowered <;> cases hp
    · rcases error_of_bind h with h | ⟨unit, _, h⟩
      · obtain ⟨slottingError, _, rfl⟩ := error_of_mapError h
        cases hp
      · cases h

theorem points_of_compile {options} (h : compile source options = .error e)
    (hp : e.location? = some p) : Points source p := by
  unfold compile at h
  rcases error_of_bind h with h | ⟨version, _, h⟩
  · exact points_of_sourceVersion h hp
  · rcases error_of_bind h with h | ⟨lowered, _, h⟩
    · exact points_of_loweredScript? h hp
    · rcases error_of_bind h with h | ⟨result, _, h⟩
      · refine points_of_compileScript h hp fun hnone => ?_
        cases lowered with
        | none => rfl
        | some => cases hnone
      · cases h

/-- Tokens and errors say truly where they are.  The tokens of both scanners and the errors of the
first stand at their offsets; an error of the compiler that has a location stands at some offset of
the source. -/
theorem positions_real (source : String) :
    (∀ tokens, Pine.scan source = .ok tokens → ∀ t ∈ tokens, PointsAt source t.start t.position) ∧
      (∀ e, Pine.scan source = .error e → PointsAt source e.offset e.position) ∧
      (∀ tokens, Script.scan source = .ok tokens →
        ∀ t ∈ tokens, PointsAt source t.start t.position) ∧
      ∀ options e p, compile source options = .error e → e.location? = some p →
        Points source p := by
  refine ⟨fun tokens h => ?_, fun e h => ?_, fun tokens h => ?_, fun options e p h hp => ?_⟩
  · have hscan := Pine.stand_scan source
    rw [h] at hscan
    exact hscan
  · have hscan := Pine.stand_scan source
    rw [h] at hscan
    exact hscan
  · have hscan := Script.stand_scan source
    rw [h] at hscan
    exact hscan
  · exact points_of_compile h hp

/-- A call that a bracket of the wrong kind closes, behind a character of two bytes. -/
def misclosed : String := "//@version=6\nindicator(\"é\"]\n"

theorem misclosed_positions_real :
    ∃ e, compile misclosed ⟨.auto, none⟩ = .error e ∧ e.location? = some ⟨2, 14⟩ ∧
      Points misclosed ⟨2, 14⟩ := by
  have hlocation : (compile misclosed ⟨.auto, none⟩).mapError CompileError.location? =
      .error (some ⟨2, 14⟩) := by decide +kernel
  cases hcompile : compile misclosed ⟨.auto, none⟩ with
  | error e =>
    rw [hcompile] at hlocation
    exact ⟨e, rfl, Except.error.inj hlocation,
      (positions_real misclosed).2.2.2 _ e _ hcompile (Except.error.inj hlocation)⟩
  | ok compiled =>
    rw [hcompile] at hlocation
    cases hlocation

end IndicatorCompiler
