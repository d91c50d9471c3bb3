import IndicatorCompiler.Version
import Mathlib.Data.List.TakeWhile

/-!
# Pragmas and the version they name

What a pragma line looks like, which pragmas a source has, and what they come to: one version, if
every pragma names it and no other is expected, or the first pragma with which that fails.
-/

namespace IndicatorCompiler.Version

open Text.Unicode (isDecimalDigit)

/-! ## Lines -/

/-- Nothing but blanks and tabs. -/
def IsGaps (text : List Char) : Prop := ∀ c ∈ text, isGap c = true

/-- The text is a pragma with these digits. -/
inductive PragmaText (digits : List Char) : List Char → Prop
  | mk {indent behind middle before after} (hindent : IsGaps indent) (hbehind : IsGaps behind)
      (hmiddle : IsGaps middle) (hbefore : IsGaps before)
      (hdigits : digits ≠ [] ∧ ∀ c ∈ digits, isDecimalDigit c = true) (hafter : IsGaps after) :
      PragmaText digits (indent ++ ("//".toList ++ (behind ++ ("@version".toList ++
        (middle ++ ("=".toList ++ (before ++ (digits ++ after))))))))

/-- The line is a pragma, up to a carriage return at its end. -/
def PragmaLine (digits line : List Char) : Prop :=
  ∃ text ending, line = text ++ ending ∧ PragmaText digits text ∧ (ending = [] ∨ ending = ['\r'])

/-- A text is cut where a class of characters ends. -/
theorem span_append {p : Char → Bool} {front back : List Char} (hfront : ∀ c ∈ front, p c = true)
    (hback : ∀ c ∈ back.head?, p c = false) :
    (front ++ back).takeWhile p = front ∧ (front ++ back).dropWhile p = back := by
  rw [List.takeWhile_append_of_pos hfront, List.dropWhile_append_of_pos hfront]
  cases back with
  | nil => simp
  | cons c back => simp [hback c rfl]

theorem exists_span (p : Char → Bool) (text : List Char) : ∃ front back, text = front ++ back ∧
    (∀ c ∈ front, p c = true) ∧ ∀ c ∈ back.head?, p c = false := by
  refine ⟨_, _, List.takeWhile_append_dropWhile.symm, fun _ => List.mem_takeWhile_imp,
    fun c hc => ?_⟩
  simpa [Option.mem_def.mp hc] using List.head?_dropWhile_not p text

/-- A word that does not start with a gap stands behind gaps. -/
theorem word_eq_some (word : List Char) {line rest} (hword : word.head?.any (!isGap ·) = true) :
    after? word (line.dropWhile isGap) = some rest ↔ ∃ gaps, IsGaps gaps ∧
      line = gaps ++ (word ++ rest) := by
  have hhead : ∀ c ∈ (word ++ rest).head?, isGap c = false := by
    cases word with
    | nil => cases hword
    | cons c word => simpa using hword
  rw [after?, Option.ite_none_right_eq_some, List.isPrefixOf_iff_prefix]
  constructor
  · rintro ⟨⟨tail, htail⟩, hrest⟩
    obtain ⟨gaps, back, rfl, hgaps, hback⟩ := exists_span isGap line
    rw [(span_append hgaps hback).2] at htail hrest
    subst htail
    exact ⟨gaps, hgaps, by simpa using hrest⟩
  · rintro ⟨gaps, hgaps, rfl⟩
    simp [(span_append hgaps hhead).2]

theorem pragmaDigits?_eq_some {line digits} : pragmaDigits? line = some digits ↔
    PragmaLine digits line := by
  simp only [pragmaDigits?, Option.bind_eq_bind, Option.bind_eq_some_iff,
    word_eq_some "//".toList rfl, word_eq_some "@version".toList rfl, word_eq_some "=".toList rfl]
  constructor
  · rintro ⟨_, ⟨indent, hindent, rfl⟩, _, ⟨behind, hbehind, rfl⟩, text, ⟨middle, hmiddle, rfl⟩, h⟩
    obtain ⟨before, rest, rfl, hbefore, hrest⟩ := exists_span isGap text
    obtain ⟨found, tail, rfl, hfound, htail⟩ := exists_span isDecimalDigit rest
    obtain ⟨after, ending, rfl, hafter, hending⟩ := exists_span isGap tail
    simp only [span_append hbefore hrest, span_append hfound htail, List.drop_left,
      span_append hafter hending] at h
    obtain ⟨hnil, h⟩ := Option.ite_none_left_eq_some.mp h
    obtain ⟨hends, h⟩ := Option.ite_none_right_eq_some.mp h
    cases h
    exact ⟨_, ending, by simp only [List.append_assoc],
      .mk hindent hbehind hmiddle hbefore ⟨by simpa using hnil, hfound⟩ hafter, hends⟩
  · rintro ⟨_, ending, rfl, ⟨hindent, hbehind, hmiddle, hbefore, ⟨hnil, hdigits⟩, hafter⟩, hending⟩
    rename_i after
    have hgap {c : Char} (hc : isGap c = true) : isDecimalDigit c = false := by
      simp only [isGap, Bool.or_eq_true, beq_iff_eq] at hc
      obtain rfl | rfl := hc <;> rfl
    have hrest : ∀ c ∈ (digits ++ (after ++ ending)).head?, isGap c = false := by
      cases digits with
      | nil => exact absurd rfl hnil
      | cons d digits =>
        rintro c hc
        cases hc
        exact Bool.eq_false_iff.mpr fun hd => by simp [hgap hd] at hdigits
    have htail : ∀ c ∈ (after ++ ending).head?, isDecimalDigit c = false := fun c hc => by
      obtain hmem | hmem := List.mem_append.mp (List.mem_of_mem_head? hc)
      · exact hgap (hafter c hmem)
      · obtain rfl | rfl := hending <;> simp at hmem
        exact hmem ▸ rfl
    have hends : ∀ c ∈ ending.head?, isGap c = false := by
      obtain rfl | rfl := hending <;> simp [isGap]
    refine ⟨_, ⟨_, hindent, by simp only [List.append_assoc]; rfl⟩, _, ⟨_, hbehind, rfl⟩, _,
      ⟨_, hmiddle, rfl⟩, ?_⟩
    simp only [span_append hbefore hrest, span_append hdigits htail, List.drop_left,
      span_append hafter hends]
    simp [hnil, hending]

/-- The carriage return that ends a line is no part of its pragma. -/
theorem pragmaDigits?_return {line} (h : '\r' ∉ line) :
    pragmaDigits? (line ++ ['\r']) = pragmaDigits? line := by
  have hnone {digits text} (ht : PragmaText digits text) : '\r' ∉ text := by
    have hgaps {gaps} (hgaps : IsGaps gaps) : '\r' ∉ gaps := fun hc => nomatch hgaps _ hc
    obtain ⟨hindent, hbehind, hmiddle, hbefore, ⟨-, hdigits⟩, hafter⟩ := ht
    have hdigit : '\r' ∉ digits := fun hc => nomatch hdigits _ hc
    simp [hgaps hindent, hgaps hbehind, hgaps hmiddle, hgaps hbefore, hgaps hafter, hdigit]
  refine Option.ext fun digits => ?_
  rw [pragmaDigits?_eq_some, pragmaDigits?_eq_some]
  constructor
  · rintro ⟨text, ending, heq, htext, rfl | rfl⟩
    · rw [List.append_nil] at heq
      subst heq
      exact absurd (by simp) (hnone htext)
    · exact ⟨text, [], by simpa using heq, htext, .inl rfl⟩
  · rintro ⟨text, ending, rfl, htext, rfl | rfl⟩
    · exact ⟨text, _, by simp, htext, .inr rfl⟩
    · simp at h

/-! ## Sources -/

theorem splitLines_eq_splitOn (text : List Char) : Text.splitLines text = text.splitOn '\n' := by
  induction text with
  | nil => rfl
  | cons c text ih =>
    have hcons : Text.splitLines text ≠ [] := ih ▸ List.splitOnP_ne_nil _ _
    rw [List.splitOn, List.splitOnP_cons_eq_if_modifyHead, ← List.splitOn, ← ih, Text.splitLines]
    cases h : Text.splitLines text with
    | nil => exact absurd h hcons
    | cons line more => by_cases hc : c = '\n' <;> simp [hc]

/-- The pragmas among numbered lines. -/
theorem mem_pragmasFrom {n lines p} : p ∈ pragmasFrom n lines ↔
    ∃ line, (line, p.line) ∈ lines.zipIdx n ∧ PragmaLine p.digits.toList line := by
  induction lines generalizing n with
  | nil => simp [pragmasFrom]
  | cons text lines ih =>
    have hfirst : (∃ line, (line, p.line) = (text, n) ∧ PragmaLine p.digits.toList line) ↔
        p.line = n ∧ pragmaDigits? text = some p.digits.toList := by
      simp [pragmaDigits?_eq_some, and_assoc]
    simp only [List.zipIdx_cons, List.mem_cons, or_and_right, exists_or, hfirst, ← ih, pragmasFrom]
    cases pragmaDigits? text with
    | none => simp
    | some digits =>
      refine List.mem_cons.trans (or_congr_left ⟨?_, ?_⟩)
      · rintro rfl
        simp
      · rintro ⟨rfl, hdigits⟩
        cases hdigits
        simp

theorem pairwise_pragmasFrom (n : Nat) (lines : List (List Char)) :
    (pragmasFrom n lines).Pairwise (·.line < ·.line) := by
  induction lines generalizing n with
  | nil => exact .nil
  | cons text lines ih =>
    unfold pragmasFrom
    split
    · refine .cons (fun p hp => ?_) (ih _)
      obtain ⟨line, hline, -⟩ := mem_pragmasFrom.mp hp
      exact List.le_snd_of_mem_zipIdx hline
    · exact ih _

/-! ## Versions -/

/-- The digits are ASCII digits of the number. -/
def Spells (digits : String) (v : Nat) : Prop :=
  digits ≠ "" ∧ (∀ c ∈ digits.toList, c.isDigit = true) ∧ Nat.ofDigitChars 10 digits.toList 0 = v

/-- What pragmas come to: no version without any, and else the one that every pragma names, if it is
supported and no other is expected. -/
def Named (expected : Option Nat) (found : List Pragma) : Option Nat → Prop
  | none => found = []
  | some v => found ≠ [] ∧ (∀ p ∈ found, Spells p.digits v) ∧ (5 ≤ v ∧ v < 2 ^ 32) ∧
      ∀ wanted ∈ expected, wanted = v

/-- There is something they come to. -/
def Acceptable (expected : Option Nat) (found : List Pragma) : Prop :=
  ∃ version, Named expected found version

theorem version?_eq_some {p : Pragma} {v} : p.version? = some v ↔ Spells p.digits v ∧ 5 ≤ v ∧
    v < 2 ^ 32 := by
  have hdigits : ¬ (p.digits.toList.isEmpty || !p.digits.toList.all Char.isDigit) = true ↔
      p.digits ≠ "" ∧ ∀ c ∈ p.digits.toList, c.isDigit = true := by simp
  rw [Pragma.version?, Option.filter_eq_some_iff, number?, Option.ite_none_left_eq_some, hdigits,
    Option.ite_none_right_eq_some, decide_eq_true_iff]
  constructor
  · rintro ⟨⟨⟨hnil, hall⟩, hbound, hv⟩, hminimum⟩
    cases hv
    exact ⟨⟨hnil, hall, rfl⟩, hminimum, hbound⟩
  · rintro ⟨⟨hnil, hall, rfl⟩, hminimum, hbound⟩
    exact ⟨⟨⟨hnil, hall⟩, hbound, rfl⟩, hminimum⟩

variable {expected resolved : Option Nat} {before found : List Pragma} {p : Pragma}

theorem Named.inj {version} (h : Named expected found version)
    (h' : Named expected found resolved) : version = resolved := by
  cases version with
  | none =>
    cases resolved with
    | none => rfl
    | some w => exact absurd h h'.1
  | some v =>
    cases resolved with
    | none => exact absurd h' h.1
    | some w =>
      obtain ⟨q, hq⟩ := List.exists_mem_of_ne_nil _ h.1
      rw [← (h.2.1 q hq).2.2, (h'.2.1 q hq).2.2]

/-- Pragmas that come to a version do so from the first one on. -/
theorem Named.of_append (h : Named expected (before ++ found) resolved) (hbefore : before ≠ []) :
    Named expected before resolved := by
  cases resolved with
  | none => exact (List.append_eq_nil_iff.mp h).1
  | some v => exact ⟨hbefore, fun q hq => h.2.1 q (by simp [hq]), h.2.2⟩

/-- What reading comes to behind other pragmas: all of them are acceptable, or the first that are
not end in the pragma of the error. -/
def Resolves (expected : Option Nat) (before found : List Pragma) :
    Except VersionError (Option Nat) → Prop
  | .ok resolved => Named expected (before ++ found) resolved
  | .error e => ∃ pre p post, found = pre ++ p :: post ∧ Acceptable expected (before ++ pre) ∧
      ¬ Acceptable expected (before ++ (pre ++ [p])) ∧ e.line? = some p.line

theorem Resolves.cons {result} (h : Resolves expected (before ++ [p]) found result) :
    Resolves expected before (p :: found) result := by
  cases result with
  | ok resolved => simpa [Resolves] using h
  | error e =>
    obtain ⟨pre, q, post, rfl, hpre, hq, hline⟩ := h
    exact ⟨p :: pre, q, post, rfl, by simpa using hpre, by simpa using hq, hline⟩

theorem resolves_resolveFrom (h : Named expected before resolved) :
    Resolves expected before found (resolveFrom expected resolved found) := by
  induction found generalizing before resolved with
  | nil => simpa [Resolves, resolveFrom] using h
  | cons p found ih =>
    have stop {e : VersionError} (hline : e.line? = some p.line)
        (hp : ∀ v, p.version? = some v → ¬ Named expected (before ++ [p]) (some v)) :
        Resolves expected before (p :: found) (.error e) := by
      refine ⟨[], p, found, rfl, by simpa using ⟨_, h⟩, ?_, hline⟩
      rintro ⟨version, hv⟩
      cases version with
      | none => simp [Named] at hv
      | some v => exact hp v (version?_eq_some.mpr ⟨hv.2.1 p (by simp), hv.2.2.1⟩) hv
    rw [resolveFrom]
    split
    · rename_i hnone
      exact stop rfl fun v hv => by simp [hnone] at hv
    · rename_i version hversion
      obtain ⟨hspells, hrange⟩ := version?_eq_some.mp hversion
      have honly {v : Nat} (hv : p.version? = some v) : version = v :=
        Option.some.inj (hversion.symm.trans hv)
      cases resolved with
      | some first =>
        dsimp only
        split
        · rename_i heq
          subst heq
          have hnext : Named expected (before ++ [p]) (some first) :=
            ⟨by simp, fun q hq => ?_, h.2.2⟩
          · exact (ih hnext).cons
          obtain hq | hq := List.mem_append.mp hq
          · exact h.2.1 q hq
          · exact List.mem_singleton.mp hq ▸ hspells
        · rename_i hne
          exact stop rfl fun v hp hv => hne <|
            (Option.some.inj (h.inj (hv.of_append h.1))).trans (honly hp).symm
      | none =>
        have hnamed (hexpected : ∀ wanted ∈ expected, wanted = version) :
            Named expected (before ++ [p]) (some version) := by
          rw [show before = [] from h]
          exact ⟨by simp, by simpa using hspells, hrange, hexpected⟩
        cases expected with
        | none => exact (ih (hnamed (by simp))).cons
        | some wanted =>
          dsimp only
          split
          · rename_i heq
            exact (ih (hnamed fun _ hw => (Option.some.inj hw) ▸ heq)).cons
          · rename_i hne
            exact stop rfl fun v hp hv => hne ((hv.2.2.2 wanted rfl).trans (honly hp).symm)

theorem resolves_resolve (expected : Option Nat) (found : List Pragma) :
    Resolves expected [] found (resolve expected found) :=
  resolves_resolveFrom rfl

theorem resolve_eq_ok : resolve expected found = .ok resolved ↔ Named expected found resolved := by
  have h := resolves_resolve expected found
  cases hresult : resolve expected found with
  | ok version =>
    rw [hresult] at h
    exact ⟨fun heq => Except.ok.inj heq ▸ h, fun hnamed => congrArg _ (h.inj hnamed)⟩
  | error e =>
    rw [hresult] at h
    obtain ⟨pre, p, post, rfl, -, hp, -⟩ := h
    rw [List.append_cons]
    exact ⟨nofun, fun hnamed => absurd ⟨_, hnamed.of_append (by simp)⟩ hp⟩

theorem line_of_resolve_eq_error {e} (h : resolve expected found = .error e) :
    ∃ pre p post, found = pre ++ p :: post ∧ Acceptable expected pre ∧
      ¬ Acceptable expected (pre ++ [p]) ∧ e.line? = some p.line := by
  have hresolves := resolves_resolve expected found
  rwa [h] at hresolves

/-- **Version resolution is exact.**  The pragmas of a source are its pragma lines, in order and
with their digits and line numbers.  Without any there is no version; there is one if all of them
name it, it is supported and no other is expected; and otherwise the error is on the line of the
first pragma with which those read so far are not acceptable. -/
theorem resolve_pragmas_exact (source : String) (expected : Option Nat) :
    (∀ p, p ∈ pragmas source ↔ ∃ line, (line, p.line) ∈ (source.toList.splitOn '\n').zipIdx 1 ∧
      PragmaLine p.digits.toList line) ∧
    (pragmas source).Pairwise (·.line < ·.line) ∧
    (∀ version, resolve expected (pragmas source) = .ok version ↔
      Named expected (pragmas source) version) ∧
    ∀ e, resolve expected (pragmas source) = .error e →
      ∃ pre p post, pragmas source = pre ++ p :: post ∧ Acceptable expected pre ∧
        ¬ Acceptable expected (pre ++ [p]) ∧ e.line? = some p.line := by
  refine ⟨fun p => ?_, pairwise_pragmasFrom _ _, fun _ => resolve_eq_ok,
    fun _ => line_of_resolve_eq_error⟩
  rw [pragmas, splitLines_eq_splitOn, mem_pragmasFrom]

end IndicatorCompiler.Version
