import IndicatorCompiler.Proofs.ScanSteps
import Mathlib.Data.List.Infix

/-!
# Lexemes stay on their line

A token is told by the line that it starts on.  What stands behind the line, and whether a line feed
stands there alone or behind a carriage return, makes no difference to it.  The one exception would
be a string with an escaped line feed; no line here ends with a backslash.
-/

namespace IndicatorCompiler

open List (cons_append)

/-! ## Ends of lines -/

/-- The end of a line and whatever follows it, or the end of the text. -/
inductive Text.Breaks : List Char → Prop
  | text : Breaks []
  | feed (rest : List Char) : Breaks ('\n' :: rest)
  | returned (rest : List Char) : Breaks ('\r' :: '\n' :: rest)

/-- What ends every token but a string. -/
inductive Text.Ends : List Char → Prop
  | line {tail} (h : Breaks tail) : Ends tail
  | blank (rest : List Char) : Ends (' ' :: rest)

open Text (Breaks Ends)

/-- What cannot go on behind a text ends in it. -/
theorem takeWhile_append_of_nil {p : Char → Bool} {tail} (h : tail.takeWhile p = [])
    (line : List Char) : (line ++ tail).takeWhile p = line.takeWhile p := by
  rw [List.takeWhile_append]
  split
  · rename_i hlength
    rw [h, List.append_nil]
    exact ((List.takeWhile_prefix p).eq_of_length hlength).symm
  · rfl

namespace Text.Ends

variable {tail : List Char}

theorem takeWhile (h : Ends tail) {p : Char → Bool} (hfeed : p '\n' = false)
    (hreturn : p '\r' = false)
    (hblank : p ' ' = false) (line : List Char) :
    (line ++ tail).takeWhile p = line.takeWhile p := by
  refine takeWhile_append_of_nil ?_ line
  rcases h with (_ | _ | _) | _ <;> simp [hfeed, hreturn, hblank]

theorem digitsOf (h : Ends tail) (line : List Char) :
    Number.digitsOf (line ++ tail) = Number.digitsOf line :=
  h.takeWhile rfl rfl rfl line

end Text.Ends

/-! ## Numbers -/

namespace Number

variable {tail : List Char}

theorem isPrefix_digitsOf (text : List Char) : digitsOf text <+: text := List.takeWhile_prefix _

/-- What is read behind the beginning of a text belongs to a longer beginning. -/
theorem append_prefix_of_drop {first next text : List Char} (hfirst : first <+: text)
    (hnext : next <+: text.drop first.length) : first ++ next <+: text := by
  have hsplit := List.prefix_iff_eq_append.mp hfirst
  rw [← hsplit]
  exact (List.prefix_append_right_inj first).mpr hnext

theorem isPrefix_significandLexeme (text : List Char) : significandLexeme text <+: text := by
  unfold significandLexeme
  split
  · split
    · rename_i rest _
      split
      · exact List.nil_prefix
      · exact List.cons_prefix_cons.mpr ⟨rfl, isPrefix_digitsOf rest⟩
    · exact List.nil_prefix
  · split
    · rename_i rest hdrop
      refine append_prefix_of_drop (isPrefix_digitsOf text) ?_
      rw [hdrop]
      exact List.cons_prefix_cons.mpr ⟨rfl, isPrefix_digitsOf rest⟩
    · exact isPrefix_digitsOf text

theorem isPrefix_exponentLexeme (text : List Char) : exponentLexeme text <+: text := by
  unfold exponentLexeme
  split
  · rename_i e sign rest
    split
    · split
      · split
        · exact List.nil_prefix
        · simpa using isPrefix_digitsOf rest
      · split
        · exact List.nil_prefix
        · simpa using isPrefix_digitsOf (sign :: rest)
    · exact List.nil_prefix
  · exact List.nil_prefix

theorem isPrefix_lexeme (text : List Char) : lexeme text <+: text := by
  unfold lexeme
  split
  · exact List.nil_prefix
  · exact append_prefix_of_drop (isPrefix_significandLexeme text) (isPrefix_exponentLexeme _)

/-- What follows the digits of a line: a point with more digits, or nothing that belongs to them. -/
theorem fraction_append (h : Ends tail) (whole behind : List Char) : (match behind ++ tail with
      | '.' :: rest => whole ++ '.' :: digitsOf rest
      | _ => whole) =
    match behind with
      | '.' :: rest => whole ++ '.' :: digitsOf rest
      | _ => whole := by
  cases behind with
  | nil => rcases h with (_ | _ | _) | _ <;> rfl
  | cons c behind =>
    by_cases hc : c = '.'
    · subst hc
      simp only [cons_append, h.digitsOf]
    · simp [hc]

theorem significandLexeme_append (h : Ends tail) (line : List Char) :
    significandLexeme (line ++ tail) = significandLexeme line := by
  unfold significandLexeme
  rw [h.digitsOf]
  cases hdigits : digitsOf line with
  | nil =>
    cases line with
    | nil => rcases h with (_ | _ | _) | _ <;> rfl
    | cons c line =>
      by_cases hc : c = '.'
      · subst hc
        simp only [cons_append, h.digitsOf]
      · simp [hc]
  | cons d digits =>
    have hlength := (isPrefix_digitsOf line).length_le
    rw [hdigits] at hlength
    simp only [List.drop_append_of_le_length hlength]
    exact fraction_append h _ _

theorem exponentLexeme_append (h : Ends tail) (line : List Char) :
    exponentLexeme (line ++ tail) = exponentLexeme line := by
  match line with
  | [] =>
    unfold exponentLexeme
    rcases h with (_ | rest | _) | rest
    · rfl
    · cases rest <;> rfl
    · rfl
    · cases rest <;> rfl
  | [e] => rcases h with (_ | _ | _) | _ <;> simp [exponentLexeme, digitsOf]
  | e :: sign :: rest =>
    have hrest := h.digitsOf rest
    have hsign := h.digitsOf (sign :: rest)
    simp only [cons_append] at hsign ⊢
    simp only [exponentLexeme, hrest, hsign]

theorem lexeme_append (h : Ends tail) (line : List Char) : lexeme (line ++ tail) = lexeme line := by
  have hlength := (isPrefix_significandLexeme line).length_le
  unfold lexeme
  rw [significandLexeme_append h]
  cases hsignificand : significandLexeme line with
  | nil => rfl
  | cons d digits =>
    rw [hsignificand] at hlength
    simp only [List.drop_append_of_le_length hlength, exponentLexeme_append h]

end Number

/-! ## Tokens -/

namespace Pine

variable {tail : List Char}

theorem stringBody_feed (quote : Char) (rest : List Char) :
    stringBody quote ('\n' :: rest) = none := by
  rw [stringBody.eq_def]
  rfl

theorem stringBody_escape (quote e : Char) (rest : List Char) :
    stringBody quote ('\\' :: e :: rest) =
      (stringBody quote rest).map fun (text, n) => (unescaped e :: text, n + 2) := by
  rw [stringBody.eq_def]
  rfl

theorem stringBody_char {quote c} (hfeed : c ≠ '\n') (hescape : c ≠ '\\') (rest : List Char) :
    stringBody quote (c :: rest) =
      if c = quote then some ([], 1) else (stringBody quote rest).map fun (text, n) =>
      (c :: text, n + 1) := by
  rw [stringBody.eq_def]
  simp only [hfeed, hescape, if_false]

/-- An open string is not closed on the next line. -/
theorem stringBody_of_breaks (h : Breaks tail) {quote} (hquote : quote ≠ '\r') :
    stringBody quote tail = none := by
  cases h with
  | text => rfl
  | feed rest => exact stringBody_feed quote rest
  | returned rest =>
    rw [stringBody_char (by decide) (by decide), if_neg hquote.symm, stringBody_feed]
    rfl

theorem stringBody_append (h : Breaks tail) {quote} (hquote : quote ≠ '\r') {line}
    (hline : line.getLast? ≠ some '\\') :
    stringBody quote (line ++ tail) = stringBody quote line := by
  match line with
  | [] => exact stringBody_of_breaks h hquote
  | [c] =>
    have hescape : c ≠ '\\' := by simpa using hline
    by_cases hfeed : c = '\n'
    · rw [hfeed, cons_append, stringBody_feed, stringBody_feed]
    · rw [cons_append, stringBody_char hfeed hescape, stringBody_char hfeed hescape,
        List.nil_append, stringBody_of_breaks h hquote]
      rfl
  | c :: d :: line =>
    have hbehind : (d :: line).getLast? ≠ some '\\' := by simpa using hline
    by_cases hfeed : c = '\n'
    · rw [hfeed, cons_append, stringBody_feed, stringBody_feed]
    · by_cases hescape : c = '\\'
      · have hrest : line.getLast? ≠ some '\\' := by
          cases line with
          | nil => simp
          | cons => simpa using hbehind
        rw [hescape, cons_append, cons_append, stringBody_escape, stringBody_escape,
          stringBody_append h hquote hrest]
      · rw [cons_append, stringBody_char hfeed hescape, stringBody_char hfeed hescape,
          stringBody_append h hquote hbehind]

/-- A string that is closed stays as it is, whatever follows. -/
theorem stringBody_append_of_some {quote line text n} (h : stringBody quote line = some (text, n))
    (tail : List Char) : stringBody quote (line ++ tail) = some (text, n) := by
  match line with
  | [] => cases h
  | c :: line =>
    by_cases hfeed : c = '\n'
    · rw [hfeed, stringBody_feed] at h
      cases h
    · by_cases hescape : c = '\\'
      · subst hescape
        match line with
        | [] => cases h
        | e :: line =>
          rw [stringBody_escape] at h
          obtain ⟨⟨inside, m⟩, hinside, hread⟩ := Option.map_eq_some_iff.mp h
          rw [cons_append, cons_append, stringBody_escape, stringBody_append_of_some hinside tail,
            Option.map_some, hread]
      · rw [stringBody_char hfeed hescape] at h
        rw [cons_append, stringBody_char hfeed hescape]
        split at h
        · rename_i hquote
          rwa [if_pos hquote]
        · rename_i hquote
          obtain ⟨⟨inside, m⟩, hinside, hread⟩ := Option.map_eq_some_iff.mp h
          rw [if_neg hquote, stringBody_append_of_some hinside tail, Option.map_some, hread]

theorem colorDigits?_append (h : Ends tail) (line : List Char) :
    colorDigits? (line ++ tail) = colorDigits? line := by
  unfold colorDigits?
  rw [h.takeWhile rfl rfl rfl]
  have hlength := (List.takeWhile_prefix (l := line) isHexDigit).length_le
  simp only [List.drop_append_of_le_length hlength]
  cases line.drop (line.takeWhile isHexDigit).length with
  | nil =>
    have hfeed : Text.Unicode.isWordChar '\n' = false := by decide
    have hreturn : Text.Unicode.isWordChar '\r' = false := by decide
    have hblank : Text.Unicode.isWordChar ' ' = false := by decide
    rcases h with (_ | _ | _) | _ <;> simp [hfeed, hreturn, hblank]
  | cons c behind => rfl

theorem ofPair?_append (h : Ends tail) (c : Char) (line : List Char) :
    (line ++ tail).head?.bind (Symbol.ofPair? c) = line.head?.bind (Symbol.ofPair? c) := by
  cases line with
  | nil => rcases h with (_ | _ | _) | _ <;> simp [Symbol.ofPair?, Symbol.pairs]
  | cons d line => rfl

theorem startsNumber_append (h : Ends tail) (c : Char) (line : List Char) :
    startsNumber c (line ++ tail) = startsNumber c line := by
  cases line with
  | nil => rcases h with (_ | _ | _) | _ <;> rfl
  | cons d line => rfl

/-- Every token but a string is told by what stands in front of the end. -/
theorem lexeme_append_of (h : Ends tail) (c : Char) {line}
    (hstring : c = '"' ∨ c = '\'' → stringBody c (line ++ tail) = stringBody c line) :
    lexeme c (line ++ tail) = lexeme c line := by
  have hnumber : Number.lexeme (c :: (line ++ tail)) = Number.lexeme (c :: line) :=
    Number.lexeme_append h (c :: line)
  have hname : (line ++ tail).takeWhile continuesName = line.takeWhile continuesName :=
    h.takeWhile rfl rfl rfl line
  unfold lexeme
  rw [ofPair?_append h, colorDigits?_append h, startsNumber_append h, hnumber, hname]
  split
  · rfl
  · split
    · rename_i hquote
      rw [hstring hquote]
    · rfl

/-- A token is told by its line. -/
theorem lexeme_append (h : Breaks tail) (c : Char) {line} (hline : line.getLast? ≠ some '\\') :
    lexeme c (line ++ tail) = lexeme c line := by
  refine lexeme_append_of (.line h) c fun hquote => stringBody_append h ?_ hline
  rcases hquote with rfl | rfl <;> decide

theorem lexeme_append_of_ok (h : Ends tail) {c line read} (hread : lexeme c line = .ok read) :
    lexeme c (line ++ tail) = .ok read := by
  rw [lexeme_append_of h c, hread]
  intro hquote
  cases hbody : stringBody c line with
  | some body => exact stringBody_append_of_some hbody tail
  | none =>
    have hpair : line.head?.bind (Symbol.ofPair? c) = none := by
      cases line with
      | nil => rfl
      | cons d line => rcases hquote with rfl | rfl <;> simp [Symbol.ofPair?, Symbol.pairs]
    simp [lexeme, hpair, hquote, hbody] at hread

theorem le_of_stringBody {quote rest text n} (h : stringBody quote rest = some (text, n)) :
    n ≤ rest.length := by
  fun_induction stringBody quote rest generalizing text n with
  | case1 | case2 | case3 => cases h
  | case4 e rest _ ih =>
    obtain ⟨⟨inside, m⟩, hinside, heq⟩ := Option.map_eq_some_iff.mp h
    cases heq
    exact Nat.add_le_add_right (ih hinside) 2
  | case5 =>
    cases h
    exact Nat.succ_le_succ (Nat.zero_le _)
  | case6 c rest _ _ _ ih =>
    obtain ⟨⟨inside, m⟩, hinside, heq⟩ := Option.map_eq_some_iff.mp h
    cases heq
    exact Nat.succ_le_succ (ih hinside)

theorem le_of_colorDigits? {text digits} (h : colorDigits? text = some digits) :
    digits.length ≤ text.length := by
  obtain ⟨-, hdigits⟩ := Option.ite_none_right_eq_some.mp h
  cases hdigits
  exact (List.takeWhile_prefix _).length_le

theorem le_of_lexeme {c rest kind n} (h : lexeme c rest = .ok (kind, n)) : n ≤ rest.length + 1 := by
  cases lexed_of_lexeme h with
  | pair hnext =>
    obtain ⟨behind, rfl⟩ := List.head?_eq_some_iff.mp hnext
    exact Nat.add_le_add_right (Nat.succ_le_succ (Nat.zero_le _)) 1
  | string hbody => exact Nat.succ_le_succ (le_of_stringBody hbody)
  | color hdigits => exact Nat.succ_le_succ (le_of_colorDigits? hdigits)
  | number =>
    have hlength := (Number.isPrefix_lexeme (c :: rest)).length_le
    rw [List.length_cons] at hlength
    exact Nat.max_le.mpr ⟨Nat.succ_le_succ (Nat.zero_le _), hlength⟩
  | single => exact Nat.succ_le_succ (Nat.zero_le _)
  | word => exact Nat.succ_le_succ (List.takeWhile_prefix _).length_le

/-- A token takes no line feed, unless one is escaped. -/
theorem feed_not_mem_of_lexeme {c rest} (hc : c ≠ '\n') (hescape : ¬ ['\\', '\n'] <:+: rest)
    {kind n} (h : lexeme c rest = .ok (kind, n)) : '\n' ∉ (c :: rest).take n := by
  by_cases hfeed : '\n' ∈ rest
  · obtain ⟨line, tail, rfl, hline⟩ := List.eq_append_cons_of_mem hfeed
    have hlast : line.getLast? ≠ some '\\' := fun hlast => hescape <| by
      obtain ⟨first, rfl⟩ := List.getLast?_eq_some_iff.mp hlast
      exact ⟨first, tail, by simp⟩
    rw [lexeme_append (.feed tail) c hlast] at h
    rw [← cons_append, List.take_append_of_le_length (le_of_lexeme h)]
    exact fun hmem => List.not_mem_cons_of_ne_of_not_mem hc.symm hline (List.mem_of_mem_take hmem)
  · exact fun hmem => List.not_mem_cons_of_ne_of_not_mem hc.symm hfeed (List.mem_of_mem_take hmem)

end Pine

end IndicatorCompiler
