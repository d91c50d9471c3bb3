import IndicatorCompiler.Proofs.NumberText
import IndicatorCompiler.Script.Token.Scan
import IndicatorCompiler.Text.Quoted

/-!
# Lexing pieces of text

`Lexes after text ks` says that a scanner in front of `text` reads tokens of the kinds `ks` and then
stands behind `text`, whatever stands there, as long as its first character is in `after`.  Texts
that a printer puts together are lexed piece by piece: a word must not be followed by a character
that would go on with it, and most other pieces end by themselves.
-/

namespace IndicatorCompiler.Script

open Text (Cursor Position)

/-! ## Steps of the scanner -/

theorem tokens_eq (c : Cursor) : tokens c = match next c with
      | .error e => .error e
      | .ok (token, none) => .ok [token]
      | .ok (token, some after) => (tokens after).map (token :: ·) := by
  rw [tokens]
  split
  · rename_i h
    rw [h]
  · rename_i h
    rw [h]
  · rename_i token after h
    rw [h]
    show _ = (tokens after).map (token :: ·)
    cases tokens after <;> rfl

/-- What is scanned depends on what is left behind white space and comments only. -/
theorem tokens_congr {c c'} (h : skipTrivia c = skipTrivia c') : tokens c = tokens c' := by
  rw [tokens_eq c, tokens_eq c', next, next, h]

/-- The text begins with neither white space nor a comment. -/
def opensToken : List Char → Bool
  | [] => false
  | '/' :: '/' :: _ | '/' :: '*' :: _ => false
  | c :: _ => !Text.Unicode.isBlank c

theorem skipTrivia_token {c} (h : opensToken c.rest = true) : skipTrivia c = .ok c := by
  obtain ⟨text, offset, p⟩ := c
  simp only at h
  rw [skipTrivia, trivia.eq_def]
  unfold opensToken at h
  split at h
  · cases h
  · cases h
  · cases h
  · rename_i ch rest hline hblock
    have hblank : Text.Unicode.isBlank ch = false := by simpa using h
    by_cases hslash : ch = '/'
    · subst hslash
      simp only [if_true]
      split
      · exact (hline _ rfl rfl).elim
      · exact (hblock _ rfl rfl).elim
      · rfl
    · simp [hslash, hblank]

/-- The character begins neither white space nor a comment. -/
def startsToken (c : Char) : Bool := c != '/' && !Text.Unicode.isBlank c

theorem opensToken_of_startsToken {c} (h : startsToken c = true) (rest : List Char) :
    opensToken (c :: rest) = true := by
  simp only [startsToken, Bool.and_eq_true, bne_iff_ne, ne_eq] at h
  unfold opensToken
  split <;> simp_all

theorem tokens_lexeme {c ch rest kind n} (hc : c.rest = ch :: rest) (htrivia : skipTrivia c = .ok c)
    (h : lexeme ch rest = .ok (kind, n)) :
    tokens c = (tokens (c.skip n)).map (⟨kind, c.offset, c.position⟩ :: ·) := by
  rw [tokens_eq, next, htrivia]
  simp only [hc, h]

theorem tokens_blank {c ch rest} (hc : c.rest = ch :: rest) (h : Text.Unicode.isBlank ch = true) :
    tokens c = tokens c.next := by
  obtain ⟨text, offset, p⟩ := c
  obtain rfl : text = ch :: rest := hc
  have hslash : ch ≠ '/' := by
    rintro rfl
    exact absurd h (by decide)
  refine tokens_congr ?_
  rw [skipTrivia, trivia.eq_def]
  simp only [if_neg hslash, if_pos h]
  rfl

/-! ## Pieces -/

/-- In front of `text`, tokens of these kinds are read, and then what follows is scanned. -/
def Lexes (after : Char → Bool) (text : String) (ks : List Kind) : Prop :=
  ∀ ⦃c : Cursor⦄ ⦃rest : List Char⦄, c.rest = text.toList ++ rest →
  (∀ ch ∈ rest.head?, after ch = true) →
    ∃ toks c', c'.rest = rest ∧ toks.map Token.kind = ks ∧ tokens c = (tokens c').map (toks ++ ·)

/-- Anything can follow. -/
def anything : Char → Bool := fun _ => true

/-- What ends a name. -/
def endsName (c : Char) : Bool := !continuesName c

/-- What ends a name and a number. -/
def endsNumber (c : Char) : Bool := !continuesName c && c != '.'

namespace Lexes

variable {after after' : Char → Bool} {text text' : String} {ks ks' : List Kind}

theorem mono (h : Lexes after text ks) (hafter : ∀ c, after' c = true → after c = true) :
    Lexes after' text ks :=
  fun _ _ hc hrest => h hc fun ch hch => hafter ch (hrest ch hch)

/-- A piece that ends by itself can be followed by whatever another one allows. -/
theorem weaken (h : Lexes anything text ks) : Lexes after text ks := h.mono fun _ _ => rfl

theorem nil : Lexes after "" [] := by
  intro c rest hc _
  refine ⟨[], c, hc, rfl, ?_⟩
  cases tokens c <;> rfl

/-- Two pieces, the first of which may be followed by whatever the second one begins with. -/
theorem append (h : Lexes after text ks) (h' : Lexes after' text' ks')
    (hglue : ∀ rest : List Char, (∀ ch ∈ rest.head?, after' ch = true) →
      ∀ ch ∈ (text'.toList ++ rest).head?, after ch = true) :
    Lexes after' (text ++ text') (ks ++ ks') := by
  intro c rest hc hrest
  rw [String.toList_append, List.append_assoc] at hc
  obtain ⟨toks, c₁, hc₁, rfl, htokens⟩ := h hc (hglue rest hrest)
  obtain ⟨toks', c₂, hc₂, rfl, htokens'⟩ := h' hc₁ hrest
  refine ⟨toks ++ toks', c₂, hc₂, List.map_append, ?_⟩
  rw [htokens, htokens']
  cases tokens c₂ with
  | error e => rfl
  | ok more => simp [Except.map]

/-- A piece that ends by itself, and another one. -/
theorem followed (h : Lexes anything text ks) (h' : Lexes after' text' ks') :
    Lexes after' (text ++ text') (ks ++ ks') :=
  h.append h' fun _ _ _ _ => rfl

/-- A piece that the first character of another one ends. -/
theorem before {ch} (h : Lexes after text ks) (h' : Lexes after' text' ks')
    (hhead : text'.toList.head? = some ch) (hch : after ch = true) :
    Lexes after' (text ++ text') (ks ++ ks') := by
  refine h.append h' fun rest _ c hc => ?_
  obtain ⟨tail, htail⟩ := List.head?_eq_some_iff.mp hhead
  rw [htail] at hc
  obtain rfl : ch = c := by simpa using hc
  exact hch

end Lexes

theorem lexes_blanks {text} (h : ∀ ch ∈ text.toList, Text.Unicode.isBlank ch = true) :
    Lexes anything text [] := by
  intro c rest hc _
  generalize text.toList = blanks at h hc
  induction blanks generalizing c with
  | nil =>
    refine ⟨[], c, hc, rfl, ?_⟩
    cases tokens c <;> rfl
  | cons ch blanks ih =>
    have hnext : c.next.rest = blanks ++ rest := by
      obtain ⟨text, offset, p⟩ := c
      obtain rfl : text = ch :: (blanks ++ rest) := hc
      rfl
    obtain ⟨toks, c', hc', htoks, htokens⟩ :=
      ih (fun x hx => h x (List.mem_cons_of_mem ch hx)) hnext
    exact ⟨toks, c', hc', htoks, by rw [tokens_blank hc (h ch List.mem_cons_self), htokens]⟩

theorem lexes_blank : Lexes anything " " [] := lexes_blanks (by simp; rfl)

theorem lexes_newline : Lexes anything "\n" [] := lexes_blanks (by simp; rfl)

theorem lexes_indentation (level : Nat) : Lexes anything (Text.indentation level) [] := by
  refine lexes_blanks fun ch hch => ?_
  simp only [Text.indentation, Text.repeated, String.toList_ofList] at hch
  obtain rfl := List.eq_of_mem_replicate hch
  decide

/-- One token, of which the scanner takes exactly the text. -/
theorem lexes_token {after : Char → Bool} {text k ch tail} (htext : text.toList = ch :: tail)
    (h : ∀ rest : List Char, (∀ c ∈ rest.head?, after c = true) →
      opensToken (ch :: (tail ++ rest)) = true ∧ lexeme ch (tail ++ rest) = .ok
      (k, tail.length + 1)) :
    Lexes after text [k] := by
  intro c rest hc hrest
  rw [htext, List.cons_append] at hc
  refine ⟨[⟨k, c.offset, c.position⟩], c.skip (tail.length + 1), ?_, rfl, ?_⟩
  · rw [Cursor.rest_skip, hc]
    simp
  · obtain ⟨hopens, hlexeme⟩ := h rest hrest
    rw [tokens_lexeme hc (skipTrivia_token (by rwa [hc])) hlexeme]
    rfl

/-! ## Names -/

/-- The text is a name or a reserved word. -/
def isName (name : String) : Bool :=
  match name.toList with
  | [] => false
  | c :: rest => startsName c && rest.all continuesName

theorem isName_iff {name} : isName name = true ↔
      ∃ c rest, name.toList = c :: rest ∧ startsName c = true ∧ ∀ x ∈ rest, continuesName x =
        true := by
  unfold isName
  split
  · simp_all
  · rename_i c rest h
    rw [Bool.and_eq_true, List.all_eq_true]
    constructor
    · exact fun hname => ⟨c, rest, h, hname⟩
    · rintro ⟨c', rest', h', hname⟩
      obtain ⟨rfl, rfl⟩ := List.cons_eq_cons.mp (h.symm.trans h')
      exact hname

theorem toNat_of_startsName {c} (h : startsName c = true) :
    (65 ≤ c.toNat ∧ c.toNat ≤ 90) ∨ (97 ≤ c.toNat ∧ c.toNat ≤ 122) ∨ c = '_' ∨ c = '$' := by
  delta startsName Char.isAlpha Char.isUpper Char.isLower at h
  simp only [Bool.or_eq_true, decide_eq_true_eq, beq_iff_eq, UInt32.le_iff_toNat_le, ge_iff_le,
    Bool.and_eq_true] at h
  rcases h with ((h | h) | h) | h
  · exact .inl h
  · exact .inr (.inl h)
  · exact .inr (.inr (.inl h))
  · exact .inr (.inr (.inr h))

theorem startsToken_of_startsName {c} (h : startsName c = true) : startsToken c = true := by
  have hblank : Text.Unicode.isBlank c = false := by
    rcases toNat_of_startsName h with hc | hc | rfl | rfl
    · simp [Text.Unicode.isBlank]
      omega
    · simp [Text.Unicode.isBlank]
      omega
    · decide
    · decide
  have hslash : c ≠ '/' := by
    rintro rfl
    exact absurd h (by decide)
  simp [startsToken, hblank, hslash]

theorem takeWhile_eq_nil {p : Char → Bool} {text : List Char}
    (h : ∀ c ∈ text.head?, p c = false) : text.takeWhile p = [] := by
  cases text with
  | nil => rfl
  | cons c rest => simp [h c rfl]

theorem lexes_name {name : String} (h : isName name = true) :
    Lexes endsName name [.ident name] := by
  obtain ⟨c, tail, htext, hc, htail⟩ := isName_iff.mp h
  refine lexes_token htext fun rest hrest =>
    ⟨opensToken_of_startsToken (startsToken_of_startsName hc) _, ?_⟩
  have hquote : ¬ (c = '"' ∨ c = '\'') := by rintro (rfl | rfl) <;> exact absurd hc (by decide)
  have htemplate : c ≠ '`' := by
    rintro rfl
    exact absurd hc (by decide)
  have hword : (tail ++ rest).takeWhile continuesName = tail := by
    rw [List.takeWhile_append_of_pos htail,
      takeWhile_eq_nil fun x hx => by simpa [endsName] using hrest x hx, List.append_nil]
  rw [lexeme, if_neg hquote, if_neg htemplate, if_pos hc]
  simp only [hword]
  rw [← htext, String.ofList_toList]
  simp [htext]

/-! ## Punctuators -/

/-- Punctuators that no following character can make longer. -/
def Punct.endsItself : Punct → Bool
  | .lBrace | .rBrace | .lParen | .rParen | .lBracket | .rBracket => true
  | .semicolon | .comma | .colon | .ellipsis | .arrow | .plusPlus | .minusMinus => true
  | _ => false

theorem lexes_punct {p} (hp : p.endsItself = true) : Lexes anything p.text [.punct p] := by
  cases p <;> first
    | exact absurd hp (by decide)
    | exact lexes_token rfl fun rest _ => ⟨rfl, rfl⟩

/-- Every punctuator ends in front of a blank. -/
theorem lexes_punct_blank (p : Punct) : Lexes anything (p.text ++ " ") [.punct p] := by
  have hpunct : Lexes (· == ' ') p.text [.punct p] := by
    obtain ⟨ch, tail, htext⟩ : ∃ ch tail, p.text.toList = ch :: tail := by
      cases p <;> exact ⟨_, _, rfl⟩
    refine lexes_token htext fun rest hrest => ?_
    have hcases : rest = [] ∨ ∃ more, rest = ' ' :: more := by
      cases rest with
      | nil => exact .inl rfl
      | cons c more =>
        obtain rfl : c = ' ' := by simpa using hrest c rfl
        exact .inr ⟨more, rfl⟩
    cases p <;> (obtain ⟨rfl, rfl⟩ := List.cons_eq_cons.mp htext) <;>
      (rcases hcases with rfl | ⟨more, rfl⟩ <;> exact ⟨rfl, rfl⟩)
  exact hpunct.before lexes_blank rfl rfl

theorem not_isDigit_of_startsName {c} (h : startsName c = true) : c.isDigit = false := by
  simp only [Char.isDigit, Bool.and_eq_false_iff, decide_eq_false_iff_not, UInt32.le_iff_toNat_le,
    ge_iff_le]
  have hcode : c.toNat = c.val.toNat := rfl
  rcases toNat_of_startsName h with hc | hc | rfl | rfl
  · right
    simp
    omega
  · right
    simp
    omega
  · decide
  · decide

/-- What is neither a string nor a name nor a number is a punctuator. -/
theorem lexeme_punct {c rest p} (hquote : ¬ (c = '"' ∨ c = '\'')) (htemplate : c ≠ '`')
    (hname : startsName c = false) (hnumber : Number.lexeme (c :: rest) = [])
    (hpunct : Punct.ofText? (c :: rest) = some p) :
    lexeme c rest = .ok (.punct p, p.text.length) := by
  rw [lexeme, if_neg hquote, if_neg htemplate, if_neg (by simp [hname]), hnumber]
  simp only [hpunct]

theorem lexes_dot_name {name} (h : isName name = true) :
    Lexes endsName ("." ++ name) [.punct .dot, .ident name] := by
  obtain ⟨c, tail, htext, hc, -⟩ := isName_iff.mp h
  have hdot : Lexes startsName "." [.punct .dot] := by
    refine lexes_token (show ".".toList = ['.'] from rfl) fun rest hrest => ⟨rfl, ?_⟩
    cases rest with
    | nil => rfl
    | cons ch more =>
      have hch : startsName ch = true := hrest ch rfl
      have hpoint : ('.' == ch) = false := by
        rw [beq_eq_false_iff_ne]
        rintro rfl
        exact absurd hch (by decide)
      refine lexeme_punct (by decide) (by decide) rfl ?_ ?_
      · simp [Number.lexeme, Number.significandLexeme, Number.digitsOf,
          not_isDigit_of_startsName hch]
      · simp [Punct.ofText?, Punct.all, Punct.text, List.find?, List.isPrefixOf, hpoint]
  exact hdot.before (lexes_name h) (by rw [htext]; rfl) hc

theorem lexes_plusMinus {c : Char} {p : Punct}
    (h : c = '-' ∧ p = .minus ∨ c = '+' ∧ p = .plus) :
    Lexes (fun ch => ch != c && ch != '=') p.text [.punct p] := by
  have htext : p.text.toList = [c] := by rcases h with ⟨rfl, rfl⟩ | ⟨rfl, rfl⟩ <;> rfl
  refine lexes_token htext fun rest hrest => ?_
  cases rest with
  | nil => rcases h with ⟨rfl, rfl⟩ | ⟨rfl, rfl⟩ <;> exact ⟨rfl, rfl⟩
  | cons ch more =>
    have hch := hrest ch rfl
    simp only [Bool.and_eq_true, bne_iff_ne] at hch
    have hsign : (c == ch) = false := beq_eq_false_iff_ne.mpr hch.1.symm
    have heq : ('=' == ch) = false := beq_eq_false_iff_ne.mpr hch.2.symm
    rcases h with ⟨rfl, rfl⟩ | ⟨rfl, rfl⟩ <;>
      refine ⟨rfl, lexeme_punct (by decide) (by decide) rfl rfl ?_⟩ <;>
      simp [Punct.ofText?, Punct.all, Punct.text, List.find?, List.isPrefixOf, hsign, heq]

theorem lexes_bang : Lexes (· != '=') "!" [.punct .bang] := by
  refine lexes_token (show "!".toList = ['!'] from rfl) fun rest hrest => ⟨rfl, ?_⟩
  cases rest with
  | nil => rfl
  | cons ch more =>
    have hch : ch ≠ '=' := by simpa using hrest ch rfl
    have heq : ('=' == ch) = false := beq_eq_false_iff_ne.mpr hch.symm
    refine lexeme_punct (by decide) (by decide) rfl rfl ?_
    simp [Punct.ofText?, Punct.all, Punct.text, List.find?, List.isPrefixOf, heq]

/-! ## Strings -/

/-- The written form of a control character is read as that character. -/
theorem escapedCode?_control {c} (h : c.toNat < 32) :
    escapedCode? ['0', '0', Text.hexDigit (c.toNat / 16), Text.hexDigit (c.toNat % 16)] =
      some c := by
  have hall : ∀ n < 32, escapedCode? ['0', '0', Text.hexDigit (n / 16), Text.hexDigit (n % 16)] =
      some (Char.ofNat n) := by decide
  rw [hall c.toNat h, Char.ofNat_toNat]

/-- One character of a literal is read as the character it stands for. -/
theorem stringBody_quotedChar (c : Char) (rest : List Char) :
    stringBody '"' (Text.quotedChar c ++ rest) =
      consContent c (Text.quotedChar c).length (stringBody '"' rest) := by
  unfold Text.quotedChar
  split
  · rename_i h
    subst h
    rfl
  split
  · rename_i h
    subst h
    rfl
  split
  · rename_i h
    subst h
    rfl
  split
  · rename_i h
    subst h
    rfl
  split
  · rename_i h
    subst h
    rfl
  split
  · rename_i hcontrol
    simp [stringBody, escapedCode?_control hcontrol]
  · rename_i hquote hbackslash hnewline _ _ _
    rw [List.singleton_append, stringBody.eq_def]
    simp [hquote, hbackslash, hnewline]

theorem stringBody_quotedChars (text rest : List Char) :
    stringBody '"' (Text.quotedChars text ++ '"' :: rest) =
      .ok (text, (Text.quotedChars text).length + 1) := by
  induction text with
  | nil =>
    rw [Text.quotedChars, List.flatMap_nil, List.nil_append, stringBody.eq_def]
    rfl
  | cons c text ih =>
    have hsplit : Text.quotedChars (c :: text) = Text.quotedChar c ++ Text.quotedChars text := rfl
    rw [hsplit, List.append_assoc, stringBody_quotedChar, ih]
    simp only [consContent, Except.map, List.length_append]
    congr 2
    omega

/-- The next token at a written string is the string, and the cursor moves to the end of it. -/
theorem next_quote (value : String) {c rest} (hc : c.rest = (Text.quote value).toList ++ rest) :
    ∃ after : Cursor,
    next c = .ok (⟨.str value, c.offset, c.position⟩, some after) ∧ after.rest = rest := by
  rw [Text.quote, String.toList_ofList, List.cons_append, List.append_assoc] at hc
  have htrivia : skipTrivia c = .ok c := skipTrivia_token (by rw [hc]; rfl)
  refine ⟨c.skip ((Text.quotedChars value.toList).length + 2), ?_, by simp [Cursor.rest_skip, hc]⟩
  rw [next, htrivia]
  simp [hc, lexeme, stringBody_quotedChars, Except.map]

/-- A written string is read as the string. -/
theorem lexes_quote (value : String) : Lexes anything (Text.quote value) [.str value] := by
  intro c rest hc _
  obtain ⟨after, hnext, hrest⟩ := next_quote value hc
  exact ⟨[⟨.str value, c.offset, c.position⟩], after, hrest,
    rfl, by simp only [tokens_eq c, hnext]; rfl⟩

/-! ## Numbers -/

theorem endsNumeral_of_endsNumber {rest} (h : ∀ c ∈ rest.head?, endsNumber c = true) :
    Number.EndsNumeral rest := by
  intro c hc
  have hends := h c hc
  simp only [endsNumber, continuesName, Char.isAlphanum, Bool.and_eq_true, Bool.not_eq_true',
    Bool.or_eq_false_iff, bne_iff_ne] at hends
  refine ⟨hends.1.1.1.2, hends.2, ?_, ?_⟩ <;> rintro rfl <;> exact absurd hends.1.1.1.1 (by decide)

theorem startsToken_of_isDigit {c} (h : c.isDigit = true) : startsToken c = true := by
  have hslash : c ≠ '/' := by
    rintro rfl
    exact absurd h (by decide)
  have hblank : Text.Unicode.isBlank c = false := by
    simp only [Char.isDigit, Bool.and_eq_true, decide_eq_true_eq, UInt32.le_iff_toNat_le,
      ge_iff_le] at h
    have hcode : c.toNat = c.val.toNat := rfl
    simp [Text.Unicode.isBlank]
    simp at h
    omega
  simp [startsToken, hslash, hblank]

/-- Digits around a point are one number. -/
theorem lexes_numeral {after : Char → Bool} {text whole fraction}
    (htext : text.toList = Number.numeral whole fraction) (hne : whole ≠ [])
    (hwhole : ∀ c ∈ whole, c.isDigit = true) (hfraction : ∀ c ∈ fraction, c.isDigit = true)
    (hafter : ∀ rest : List Char, (∀ c ∈ rest.head?, after c = true) →
      Number.EndsFraction fraction rest) :
    Lexes after text [.num (.ofLexeme text.toList)] := by
  obtain ⟨c, tail, hnumeral⟩ : ∃ c tail, Number.numeral whole fraction = c :: tail := by
    cases whole with
    | nil => exact absurd rfl hne
    | cons c whole => exact ⟨c, _, rfl⟩
  have hc : c.isDigit = true := by
    cases whole with
    | nil => exact absurd rfl hne
    | cons d whole =>
      obtain rfl : d = c := (List.cons_eq_cons.mp hnumeral).1
      exact hwhole d List.mem_cons_self
  have hquote : ¬ (c = '"' ∨ c = '\'') := by rintro (rfl | rfl) <;> exact absurd hc (by decide)
  have htemplate : c ≠ '`' := by
    rintro rfl
    exact absurd hc (by decide)
  have hname : startsName c = false := by
    by_contra hstarts
    rw [not_isDigit_of_startsName (by simpa using hstarts)] at hc
    cases hc
  refine lexes_token (htext.trans hnumeral) fun rest hrest =>
    ⟨opensToken_of_startsToken (startsToken_of_isDigit hc) _, ?_⟩
  have hlexeme := Number.lexeme_numeral hne hwhole hfraction (hafter rest hrest)
  rw [hnumeral, List.cons_append] at hlexeme
  rw [htext, hnumeral, lexeme, if_neg hquote, if_neg htemplate, if_neg (by simp [hname]), hlexeme]
  simp

theorem lexes_magnitude (x : Number.Magnitude) :
    Lexes endsNumber x.digits.positional [.num (.finite false x)] := by
  obtain ⟨whole, fraction, htext, hne, hwhole, hfraction, hvalue⟩ := x.positional_spec
  have hlexes := lexes_numeral htext hne hwhole hfraction
    fun rest hrest => (endsNumeral_of_endsNumber hrest).fraction fraction
  rwa [htext, hvalue] at hlexes

theorem endsFraction_of_endsName {fraction rest} (hne : fraction ≠ [])
    (h : ∀ c ∈ rest.head?, endsName c = true) : Number.EndsFraction fraction rest := by
  intro c hc
  have hends := h c hc
  simp only [endsName, continuesName, Char.isAlphanum, Bool.not_eq_true',
    Bool.or_eq_false_iff] at hends
  refine ⟨hends.1.1.2, fun hnil => absurd hnil hne, ?_, ?_⟩ <;> rintro rfl <;>
    exact absurd hends.1.1.1 (by decide)

/-- A point may follow a magnitude that is written with one. -/
theorem lexes_fraction {x} (h : '.' ∈ x.digits.positional.toList) :
    Lexes endsName x.digits.positional [.num (.finite false x)] := by
  obtain ⟨whole, fraction, htext, hne, hwhole, hfraction, hvalue⟩ := x.positional_spec
  have hnonempty : fraction ≠ [] := by
    rintro rfl
    rw [htext] at h
    exact absurd (hwhole '.' (by simpa [Number.numeral] using h)) (by decide)
  have hlexes := lexes_numeral htext hne hwhole hfraction
    fun rest hrest => endsFraction_of_endsName hnonempty hrest
  rwa [htext, hvalue] at hlexes

end IndicatorCompiler.Script
