import IndicatorCompiler.Compile
import IndicatorCompiler.Proofs.NeatLowering
import IndicatorCompiler.Proofs.Pragmas
import IndicatorCompiler.Proofs.Succeeds

/-!
# Lowered scripts have no pragmas

A pragma is a comment on a line of its own, so its line starts with two slashes.  No line of a
lowered script does: there is a blank behind a slash, and a string has no line ends in it.  So a
lowered script that is compiled again is taken for the script that it is.
-/

namespace IndicatorCompiler

open Version (isGap)

/-! ## Compiling a lowered script -/

namespace Version

/-- A line that starts no comment is no pragma. -/
theorem pragmaDigits?_eq_none {line} (h : clearFrom true line = true) :
    pragmaDigits? line = none := by
  have hslashes : after? "//".toList (line.dropWhile isGap) = none := by
    induction line with
    | nil => rfl
    | cons c line ih =>
      simp only [clearFrom, Bool.true_and, Bool.and_eq_true] at h
      cases hgap : isGap c with
      | true =>
        rw [List.dropWhile_cons_of_pos hgap]
        exact ih (by simpa [hgap] using h.2)
      | false =>
        rw [List.dropWhile_cons_of_neg (by simp [hgap])]
        refine if_neg fun hprefix => ?_
        obtain ⟨rest, hrest⟩ := List.isPrefixOf_iff_prefix.mp hprefix
        have hrest : '/' :: '/' :: rest = c :: line := hrest
        obtain ⟨rfl, rfl⟩ := List.cons_eq_cons.mp hrest
        simp at h
  rw [pragmaDigits?, hslashes]
  rfl

/-- If a text is clear, so is each of its lines. -/
theorem clearFrom_splitLines {start text} (h : clearFrom start text = true) :
    ∃ first more, Text.splitLines text = first :: more ∧ first <+: text ∧
      clearFrom start first = true ∧ ∀ line ∈ more, clearFrom true line = true := by
  induction text generalizing start with
  | nil => exact ⟨[], [], rfl, List.nil_prefix, rfl, by simp⟩
  | cons c text ih =>
    simp only [clearFrom, Bool.and_eq_true] at h
    obtain ⟨first, more, hsplit, hprefix, hfirst, hmore⟩ := ih h.2
    by_cases hc : c = '\n'
    · subst hc
      refine ⟨[], first :: more, by simp [Text.splitLines, hsplit], List.nil_prefix, rfl, ?_⟩
      exact List.forall_mem_cons.mpr ⟨by simpa using hfirst, hmore⟩
    · refine ⟨c :: first, more, by simp [Text.splitLines, hsplit, hc], ?_, ?_, hmore⟩
      · exact List.cons_prefix_cons.mpr ⟨rfl, hprefix⟩
      · simp only [clearFrom, Bool.and_eq_true]
        refine ⟨?_, hfirst⟩
        obtain ⟨rest, rfl⟩ := hprefix
        cases first with
        | nil => simp
        | cons d first => exact h.1

theorem pragmas_eq_nil {text} (h : Clear text) : pragmas text = [] := by
  have hfrom {lines : List (List Char)} (hlines : ∀ line ∈ lines, clearFrom true line = true)
      (n : Nat) : pragmasFrom n lines = [] := by
    induction lines generalizing n with
    | nil => rfl
    | cons line lines ih =>
      obtain ⟨hline, hlines⟩ := List.forall_mem_cons.mp hlines
      rw [pragmasFrom, pragmaDigits?_eq_none hline]
      exact ih hlines (n + 1)
  obtain ⟨first, more, hsplit, -, hfirst, hmore⟩ := clearFrom_splitLines h.2
  rw [pragmas, hsplit]
  exact hfrom (List.forall_mem_cons.mpr ⟨hfirst, hmore⟩) 1

end Version

/-- Where a script comes from matters only to how its faults are reported. -/
theorem compileScript_ok {text lowered result} (h : compileScript text lowered = .ok result)
    (lowered' : Bool) : compileScript text lowered' = .ok result := by
  unfold compileScript at h ⊢
  cases hscript : Script.Program.ofSource text with
  | error e => simp [hscript, Except.mapError, bind, Except.bind] at h
  | ok script =>
    simp only [hscript, Except.mapError, bind, Except.bind] at h ⊢
    cases hsurvey : Survey.survey script with
    | error e => simp [hsurvey] at h
    | ok surveyed => simpa [hsurvey] using h

/-- The source is taken for indicator source. -/
def TakenForPine (source : String) (options : CompileOptions) : Prop :=
  options.language = .pine ∨ options.language = .auto ∧ Version.pragmas source ≠ []

theorem exists_program_of_loweredScript? {source language n lowered}
    (hlanguage : language ≠ .script) (h : loweredScript? source language (some n) = .ok lowered) :
    ∃ program, Pine.Program.ofSource source = .ok program ∧
      lowered = some (Lowering.lower program) := by
  unfold loweredScript? at h
  cases hprogram : Pine.Program.ofSource source with
  | error e =>
    cases language <;>
      simp [hprogram, Except.mapError, bind, Except.bind, pure, Except.pure] at h hlanguage
  | ok program =>
    refine ⟨program, rfl, ?_⟩
    cases language with
    | script => exact absurd rfl hlanguage
    | auto | pine =>
      have h : some (Lowering.lower program) = lowered := by
        simpa [hprogram, Except.mapError] using h
      exact h.symm

/-- What is accepted as indicator source names a version. -/
theorem exists_version_of_ok {source options version lowered} (hpine : TakenForPine source options)
    (hversion : sourceVersion source options = .ok version)
    (hlowered : loweredScript? source options.language version = .ok lowered) :
    ∃ n, version = some n := by
  obtain ⟨language, expected⟩ := options
  cases version with
  | some n => exact ⟨n, rfl⟩
  | none =>
    rcases hpine with rfl | ⟨rfl, hpragmas⟩
    · cases hlowered
    · cases hresolve : Version.resolve expected (Version.pragmas source) with
      | error e => simp [sourceVersion, hresolve, Except.mapError] at hversion
      | ok version =>
        obtain rfl : version = none := by
          simpa [sourceVersion, hresolve, Except.mapError] using hversion
        exact absurd (Version.resolve_eq_ok.mp hresolve) hpragmas

theorem exists_program_of_compile {source options c} (h : compile source options = .ok c)
    (hpine : TakenForPine source options) :
    ∃ program, Pine.Program.ofSource source = .ok program ∧
      c.lowered = some (Lowering.lower program) ∧
      compileScript (Lowering.lower program) true = .ok (c.code, c.declaration) := by
  have hlanguage : options.language ≠ .script := by
    rcases hpine with hpine | ⟨hpine, -⟩ <;> simp [hpine]
  unfold compile at h
  cases hversion : sourceVersion source options with
  | error e => simp [hversion, bind, Except.bind] at h
  | ok version =>
    cases hlowered : loweredScript? source options.language version with
    | error e => simp [hversion, hlowered, bind, Except.bind] at h
    | ok lowered =>
      obtain ⟨n, rfl⟩ := exists_version_of_ok hpine hversion hlowered
      obtain ⟨program, hprogram, rfl⟩ := exists_program_of_loweredScript? hlanguage hlowered
      refine ⟨program, hprogram, ?_⟩
      cases hcompiled : compileScript (Lowering.lower program) true with
      | error e => simp [hversion, hlowered, hcompiled, bind, Except.bind] at h
      | ok result =>
        simp [hversion, hlowered, hcompiled, bind, Except.bind, pure, Except.pure] at h
        subst h
        exact ⟨rfl, rfl⟩

/-- **A lowered script compiles to the same unit.**  Indicator source that is accepted is lowered to
a script which, compiled by itself, is taken for a script and gives the same code and
declaration. -/
theorem compile_lowered {source : String} {options : CompileOptions} {c : Compiled}
    (h : compile source options = .ok c) (hpine : TakenForPine source options) :
    ∃ text, c.lowered = some text ∧ compile text ⟨.auto, none⟩ =
      .ok ⟨c.code, none, none, c.declaration⟩ := by
  obtain ⟨program, hprogram, hlowered, hcompiled⟩ := exists_program_of_compile h hpine
  refine ⟨Lowering.lower program, hlowered, ?_⟩
  have hclear : Clear (Lowering.lower program) :=
    Lowering.clear_lower (Pine.valid_of_ofSource hprogram)
  have hscript := compileScript_ok hcompiled false
  simp [compile, sourceVersion, Version.pragmas_eq_nil hclear, Version.resolve, Version.resolveFrom,
    loweredScript?, hscript, Except.mapError, bind, Except.bind, pure, Except.pure]

/-- A string with a pragma in it, and a slash behind a line end. -/
def quotedPragma : String := "//@version=5\nx = \"//@version=4\"\nplot(4\n  / 2)\n"

theorem quotedPragma_lowered : ∃ c, compile quotedPragma ⟨.auto, none⟩ = .ok c ∧
    c.version = some 5 ∧ ∃ text, c.lowered = some text ∧
      compile text ⟨.auto, none⟩ = .ok ⟨c.code, none, none, c.declaration⟩ := by
  obtain ⟨c, h, hversion⟩ : ∃ c, compile quotedPragma ⟨.auto, none⟩ = .ok c ∧
      decide (c.version = some 5) = true := eq_ok_of_any (by decide +kernel)
  have hpine : TakenForPine quotedPragma ⟨.auto, none⟩ := .inr ⟨rfl, by decide +kernel⟩
  exact ⟨c, h, of_decide_eq_true hversion, compile_lowered h hpine⟩

end IndicatorCompiler
