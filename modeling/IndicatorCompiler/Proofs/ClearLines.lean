import IndicatorCompiler.Proofs.LoweredPhrases
import IndicatorCompiler.Proofs.NumberText
import IndicatorCompiler.Version

/-!
# Lines that start no comment

A text is clear if it does not start with a slash and no line of it starts a comment, wherever it
stands.  Texts one behind the other are clear if each of them is.
-/

namespace IndicatorCompiler

open Version (isGap)

/-! ## Clear texts -/

/-- No line starts with two slashes; `start` says whether the text itself stands at the start of
one, apart from gaps. -/
def clearFrom (start : Bool) : List Char → Bool
  | [] => true
  | c :: rest => !(start && c == '/' && rest.head? == some '/') &&
      clearFrom (c == '\n' || (start && isGap c)) rest

/-- What is clear at the start of a line is clear anywhere. -/
theorem clearFrom_of_true {text} (h : clearFrom true text = true) (start : Bool) :
    clearFrom start text = true := by
  cases start with
  | true => exact h
  | false =>
    induction text with
    | nil => rfl
    | cons c text ih =>
      simp only [clearFrom, Bool.true_and, Bool.and_eq_true] at h
      simp only [clearFrom, Bool.false_and, Bool.or_false, Bool.not_false, Bool.true_and]
      cases hc : c == '\n' with
      | true => simpa [hc] using h.2
      | false =>
        cases hgap : isGap c with
        | true => exact ih (by simpa [hgap] using h.2)
        | false => simpa [hc, hgap] using h.2

theorem clearFrom_append {start a b} (ha : clearFrom start a = true) (hhead : b.head? ≠ some '/')
    (hb : clearFrom true b = true) : clearFrom start (a ++ b) = true := by
  induction a generalizing start with
  | nil => exact clearFrom_of_true hb start
  | cons c a ih =>
    simp only [clearFrom, Bool.and_eq_true] at ha
    simp only [List.cons_append, clearFrom, Bool.and_eq_true]
    refine ⟨?_, ih ha.2⟩
    cases a with
    | nil => simp [hhead]
    | cons d a => exact ha.1

/-- Text without a line end can stand behind any text of a line. -/
theorem clearFrom_line {text} (h : '\n' ∉ text) : clearFrom false text = true := by
  induction text with
  | nil => rfl
  | cons c text ih =>
    obtain ⟨hc, htext⟩ := not_or.mp fun hmem => h (List.mem_cons.mpr hmem)
    have hc : (c == '\n') = false := beq_eq_false_iff_ne.mpr (Ne.symm hc)
    simpa [clearFrom, hc] using ih htext

/-- The text does not start with a slash, and no line of it starts a comment, wherever it stands. -/
def Clear (text : String) : Prop := text.toList.head? ≠ some '/' ∧ clearFrom true text.toList = true

instance (text : String) : Decidable (Clear text) := inferInstanceAs (Decidable (_ ∧ _))

theorem Clear.append {a b} (ha : Clear a) (hb : Clear b) : Clear (a ++ b) := by
  rw [Clear, String.toList_append]
  refine ⟨?_, clearFrom_append ha.2 hb.1 hb.2⟩
  rw [List.head?_append]
  cases hhead : a.toList.head? with
  | none => exact hb.1
  | some c => exact (hhead ▸ ha.1 : some c ≠ some '/')

/-- A text on one line is clear by its first character. -/
theorem clear_of_line {text} (hhead : ∀ c ∈ text.toList.head?, c ≠ '/' ∧ isGap c = false)
    (hline : '\n' ∉ text.toList) : Clear text := by
  rw [Clear]
  cases htext : text.toList with
  | nil => exact ⟨by simp, rfl⟩
  | cons c rest =>
    rw [htext] at hline hhead
    obtain ⟨hslash, hgap⟩ := hhead c rfl
    obtain ⟨hend, hrest⟩ := not_or.mp fun hmem => hline (List.mem_cons.mpr hmem)
    refine ⟨by simpa using hslash, ?_⟩
    have hend : (c == '\n') = false := beq_eq_false_iff_ne.mpr (Ne.symm hend)
    simp [clearFrom, hslash, hend, hgap, clearFrom_line hrest]

theorem clear_indentation (level : Nat) : Clear (Text.indentation level) := by
  simp only [Clear, Text.indentation, Text.repeated, String.toList_ofList]
  induction 4 * level with
  | zero => decide
  | succ n ih => simpa [List.replicate_succ, clearFrom, isGap] using ih.2

theorem clear_joinWith {ts} (h : ∀ t ∈ ts, Clear t) : Clear (Text.joinWith ", " ts) := by
  induction ts with
  | nil => decide
  | cons t ts ih =>
    obtain ⟨ht, hts⟩ := List.forall_mem_cons.mp h
    cases ts with
    | nil => exact ht
    | cons t' ts => exact (ht.append (by decide)).append (ih hts)

/-! ## Words and literals -/

/-- A text of characters of names and points is clear. -/
theorem clear_of_forall {text} (h : ∀ c ∈ text.toList, Pine.continuesName c = true ∨ c = '.') :
    Clear text := by
  have hchar (c : Char) (hc : c ∈ text.toList) : c ≠ '/' ∧ isGap c = false ∧ c ≠ '\n' := by
    have hne (d : Char) (hd : ¬(Pine.continuesName d = true ∨ d = '.')) : c ≠ d := fun heq =>
      hd (heq ▸ h c hc)
    have hblank := hne ' ' (by decide)
    have htab := hne '\t' (by decide)
    exact ⟨hne '/' (by decide), by simp [isGap, hblank, htab], hne '\n' (by decide)⟩
  refine clear_of_line (fun c hc => ?_) fun hmem => (hchar _ hmem).2.2 rfl
  have hc := hchar c (List.mem_of_mem_head? hc)
  exact ⟨hc.1, hc.2.1⟩

theorem clear_of_isWord {text} (h : Pine.isWord text = true) : Clear text := by
  unfold Pine.isWord at h
  split at h
  · cases h
  · rename_i c rest htext
    simp only [Bool.and_eq_true, List.all_eq_true] at h
    refine clear_of_forall (htext ▸ List.forall_mem_cons.mpr ⟨.inl ?_, fun d hd => .inl (h.2 d hd)⟩)
    have hstarts := h.1
    simp only [Pine.startsName, Pine.continuesName, Char.isAlphanum, Bool.or_eq_true] at hstarts ⊢
    exact hstarts.imp_left .inl

theorem continuesName_of_isDigit {c} (h : c.isDigit = true) : Pine.continuesName c = true := by
  simp [Pine.continuesName, Char.isAlphanum, h]

theorem clear_nat (n : Nat) : Clear (toString n) := by
  refine clear_of_forall fun c hc => .inl (continuesName_of_isDigit ?_)
  rw [Nat.toString_eq_repr, Nat.toList_repr] at hc
  exact Nat.isDigit_of_mem_toDigits (by decide) (by decide) hc

theorem clear_magnitude (x : Number.Magnitude) : Clear x.digits.positional := by
  obtain ⟨whole, fraction, htext, -, hwhole, hfraction, -⟩ := x.positional_spec
  refine clear_of_forall fun c hc => ?_
  rw [htext, Number.numeral, List.mem_append] at hc
  rcases hc with hc | hc
  · exact .inl (continuesName_of_isDigit (hwhole c hc))
  · split at hc
    · cases hc
    · rcases List.mem_cons.mp hc with rfl | hc
      · exact .inr rfl
      · exact .inl (continuesName_of_isDigit (hfraction c hc))

theorem not_newline_mem_quotedChar (c : Char) : '\n' ∉ Text.quotedChar c := by
  have hhex : ∀ n < 16, '\n' ≠ Text.hexDigit n := by decide
  unfold Text.quotedChar
  split
  · decide
  · split
    · decide
    · split
      · decide
      · split
        · decide
        · split
          · decide
          · split
            · simp [hhex _ (Nat.mod_lt _ (by decide : 0 < 16)), hhex (c.toNat / 16) (by omega)]
            · rename_i hline _ _ _
              simpa using Ne.symm hline

theorem clear_quote (s : String) : Clear (Text.quote s) := by
  have htext : (Text.quote s).toList = '"' :: (Text.quotedChars s.toList ++ ['"']) :=
    String.toList_ofList
  refine clear_of_line (by simp [htext, isGap]) ?_
  simp only [htext, List.mem_cons, List.mem_append, List.not_mem_nil, or_false, not_or,
    Text.quotedChars, List.mem_flatMap]
  refine ⟨by decide, ?_, by decide⟩
  rintro ⟨c, -, hc⟩
  exact not_newline_mem_quotedChar c hc

end IndicatorCompiler
