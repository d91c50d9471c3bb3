import IndicatorCompiler.Proofs.ScanSteps
import IndicatorCompiler.Proofs.Succeeds

/-!
# Balanced indentation

The tokens of an indicator open and close blocks like brackets.  A scanner holds a block as long as
its level stands above the ground, and as long as its closing token is owed.  Each step opens one
block, closes one, or keeps their number, and the scan ends only when none is left.
-/

namespace IndicatorCompiler.Pine

/-! ## Token lists that close blocks -/

/-- The tokens close the blocks that they open and `n` blocks more, and end with the text. -/
inductive Closes : Nat → List Token → Prop
  | finish {t} (h : t.kind = .eof) : Closes 0 [t]
  | opening {n t rest} (h : t.kind = .indent) (more : Closes (n + 1) rest) : Closes n (t :: rest)
  | closing {n t rest} (h : t.kind = .dedent) (more : Closes n rest) : Closes (n + 1) (t :: rest)
  | content {n t rest} (h : t.kind.isContent = true) (more : Closes n rest) : Closes n (t :: rest)

/-- How many of the tokens open blocks. -/
def openings (tokens : List Token) : Nat := tokens.countP (·.kind = .indent)

/-- How many of the tokens close blocks. -/
def closings (tokens : List Token) : Nat := tokens.countP (·.kind = .dedent)

theorem counts_of_isContent {t} (h : t.kind.isContent = true) (rest : List Token) :
    openings (t :: rest) = openings rest ∧ closings (t :: rest) = closings rest := by
  have hindent : t.kind ≠ .indent := fun heq => by simp [heq, Kind.isContent] at h
  have hdedent : t.kind ≠ .dedent := fun heq => by simp [heq, Kind.isContent] at h
  simp [openings, closings, hindent, hdedent]

theorem Closes.closings_eq {n tokens} (h : Closes n tokens) :
    closings tokens = openings tokens + n := by
  induction h with
  | finish h => simp [openings, closings, h]
  | opening h _ ih | closing h _ ih =>
    simp only [openings, closings] at ih ⊢
    simp [h, ih]
    omega
  | content h _ ih =>
    obtain ⟨hopen, hclose⟩ := counts_of_isContent h _
    rw [hopen, hclose, ih]

/-- No beginning closes more than was open. -/
theorem Closes.closings_le {n tokens p} (h : Closes n tokens) (hp : p <+: tokens) :
    closings p ≤ openings p + n := by
  induction h generalizing p with
  | finish h =>
    have hcount : closings p = 0 := List.countP_eq_zero.mpr fun t ht => by
      simp [List.mem_singleton.mp (hp.subset ht), h]
    simp [hcount]
  | opening h _ ih | closing h _ ih =>
    rcases List.prefix_cons_iff.mp hp with rfl | ⟨q, rfl, hq⟩
    · simp [closings]
    · have := ih hq
      simp only [openings, closings] at this ⊢
      simp [h]
      omega
  | content h _ ih =>
    rcases List.prefix_cons_iff.mp hp with rfl | ⟨q, rfl, hq⟩
    · simp [closings]
    · obtain ⟨hopen, hclose⟩ := counts_of_isContent h q
      rw [hopen, hclose]
      exact ih hq

/-- The end of the text stands last and nowhere else. -/
theorem Closes.eof_last {n tokens} (h : Closes n tokens) :
    ∃ body last, tokens = body ++ [last] ∧ last.kind = .eof ∧ ∀ t ∈ body, t.kind ≠ .eof := by
  have cons {t : Token} {rest : List Token} (ht : t.kind ≠ .eof)
      (hrest : ∃ body last, rest = body ++ [last] ∧ last.kind = .eof ∧ ∀ t ∈ body, t.kind ≠ .eof) :
      ∃ body last, t :: rest = body ++ [last] ∧ last.kind = .eof ∧ ∀ t ∈ body, t.kind ≠ .eof := by
    obtain ⟨body, last, rfl, hlast, hbody⟩ := hrest
    exact ⟨t :: body, last, rfl, hlast, by simpa [ht] using hbody⟩
  induction h with
  | @finish t h => exact ⟨[], t, rfl, h, by simp⟩
  | opening h _ ih | closing h _ ih => exact cons (by simp [h]) ih
  | content h _ ih => exact cons (fun heq => by simp [heq, Kind.isContent] at h) ih

/-! ## Steps of a scan -/

namespace Scanner

/-- The scanner has `n` blocks to close: the open ones above the ground, and those that are owed. -/
def Holds (s : Scanner) (n : Nat) : Prop :=
  ∃ above, s.indents = above ++ [0] ∧ n = above.length + s.owed

theorem holds_ofText (source : List Char) : (ofText source).Holds 0 := ⟨[], rfl, rfl⟩

/-- What a token does to the number of blocks. -/
inductive Moves : Kind → Nat → Nat → Prop
  | opens (n : Nat) : Moves .indent n (n + 1)
  | closes (n : Nat) : Moves .dedent (n + 1) n
  | keeps {k} (h : k.isContent = true) (n : Nat) : Moves k n n

/-- What a step does to the number of blocks. -/
def Step.Moves (n : Nat) : Step → Prop
  | emit token next => ∃ m, Scanner.Moves token.kind n m ∧ next.Holds m
  | skip next => next.Holds n
  | finish token => token.kind = .eof ∧ n = 0

/-- The ground is never left: no level is below it. -/
theorem dropWhile_ground (level : Nat) (above : List Nat) :
    (above ++ [0]).dropWhile (fun outer => decide (level < outer)) =
      above.dropWhile (fun outer => decide (level < outer)) ++ [0] := by
  rw [List.dropWhile_append]
  split
  · rename_i hempty
    rw [List.isEmpty_iff.mp hempty]
    simp
  · rfl

/-- A line further out closes at least one block. -/
theorem length_dropWhile_lt {level above} (h : level < (above ++ [0]).headD 0) :
    (above.dropWhile (fun outer => decide (level < outer))).length < above.length := by
  cases above with
  | nil => simp at h
  | cons top above =>
    have htop : level < top := by simpa using h
    have hle := (List.dropWhile_sublist (l :=
      above) (fun outer => decide (level < outer))).length_le
    simp [htop]
    omega

/-- Every step opens one block, closes one, or keeps their number; the last step finds none. -/
theorem moves_step {s : Scanner} {result n} (h : s.step = .ok result) (hs : s.Holds n) :
    result.Moves n := by
  obtain ⟨above, hindents, rfl⟩ := hs
  have hstep := h ▸ stepped_step s
  cases hstep with
  | owed howed =>
    refine ⟨above.length + (s.owed - 1), ?_, above, hindents, rfl⟩
    rw [show above.length + s.owed = above.length + (s.owed - 1) + 1 by omega]
    exact .closes _
  | @opens level => exact ⟨_, .opens _, level :: above, by simp [hindents], by simp [onLine]; omega⟩
  | @closes level hline hlevel =>
    -- the top block is closed at once, the others are owed
    rw [hindents] at hlevel
    have hdrop := length_dropWhile_lt hlevel
    have hground := dropWhile_ground level above
    have howed := hline.owed
    refine ⟨above.length - 1, ?_, above.dropWhile (fun outer => decide (level < outer)), ?_, ?_⟩
    · rw [show above.length + s.owed = above.length - 1 + 1 by omega]
      exact .closes _
    · simpa [hindents] using hground
    · simp only [hindents, hground, List.length_append, List.length_singleton]
      omega
  | closesLast _ _ hopen =>
    cases above with
    | nil => simp [hindents] at hopen
    | cons level above =>
      obtain ⟨-, hrest⟩ := List.cons.inj (hindents.symm.trans hopen)
      refine ⟨above.length + s.owed, ?_, above, hrest.symm, rfl⟩
      rw [show (level :: above).length + s.owed = above.length + s.owed + 1 by
        simp only [List.length_cons]; omega]
      exact .closes _
  | finishes hreaches _ hground =>
    rw [hindents, List.length_append, List.length_singleton] at hground
    exact ⟨rfl, by have := hreaches.owed; omega⟩
  | skips => exact ⟨above, hindents, rfl⟩
  | ends => exact ⟨_, .keeps rfl _, above, hindents, rfl⟩
  | reads _ _ _ hlex => exact ⟨_, .keeps hlex.isContent.1 _, above, hindents, rfl⟩

/-- The tokens from a scanner on close the blocks that it holds. -/
theorem closes_tokens {s : Scanner} {tokens n} (h : s.tokens = .ok tokens) (hs : s.Holds n) :
    Closes n tokens := by
  replace h := scans_of_tokens h
  induction h generalizing n with
  | finish hstep =>
    obtain ⟨hkind, rfl⟩ := moves_step hstep hs
    exact .finish hkind
  | skip hstep _ ih => exact ih (moves_step hstep hs)
  | @emit s next token rest hstep _ ih =>
    obtain ⟨m, hmoves, hnext⟩ := moves_step hstep hs
    have hmore := ih hnext
    generalize hkind : token.kind = kind at hmoves
    cases hmoves with
    | opens => exact .opening hkind hmore
    | closes => exact .closing hkind hmore
    | keeps hcontent => exact .content (hkind ▸ hcontent) hmore

end Scanner

/-! ## Whole texts -/

/-- In the tokens of a text, no beginning closes more blocks than it opens, the whole list closes
all of them, and the end of the text stands last and nowhere else. -/
theorem scan_balanced {source : String} {tokens : List Token} (h : scan source = .ok tokens) :
    (∀ p, p <+: tokens → closings p ≤ openings p) ∧ closings tokens = openings tokens ∧
      ∃ body last, tokens = body ++ [last] ∧ last.kind = .eof ∧ ∀ t ∈ body, t.kind ≠ .eof := by
  have hcloses : Closes 0 tokens := Scanner.closes_tokens h (Scanner.holds_ofText source.toList)
  exact ⟨fun p hp => hcloses.closings_le hp, hcloses.closings_eq, hcloses.eof_last⟩

/-- Blocks that are closed two at a time and at the end of the text, a wrapped line, an open bracket
and a string over two lines. -/
def layered : String :=
  "if a\n    if b\n        c(\n  d,\ne)\nf = 1 +\n  2\n" ++
  "while g\n\n    h := 'i\\\n    j'\n    // k\n\tif l\n\t\tm"

theorem layered_balanced : ∃ tokens, scan layered = .ok tokens ∧ openings tokens = 4 ∧
    (∀ p, p <+: tokens → closings p ≤ openings p) ∧ closings tokens = openings tokens ∧
      ∃ body last, tokens = body ++ [last] ∧ last.kind = .eof ∧ ∀ t ∈ body, t.kind ≠ .eof := by
  obtain ⟨tokens, h, hcount⟩ : ∃ tokens, scan layered = .ok tokens ∧
    decide (openings tokens = 4) = true :=
    eq_ok_of_any (by decide +kernel)
  exact ⟨tokens, h, of_decide_eq_true hcount, scan_balanced h⟩

end IndicatorCompiler.Pine
