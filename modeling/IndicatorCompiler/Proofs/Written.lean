import IndicatorCompiler.Proofs.Lexing
import IndicatorCompiler.Proofs.ReadingStatements

/-!
# Written expressions

`Prints after r e` says that a rendered text is read back as `e`: it lexes to tokens that are read
as `e` with the strength of the rendering.  There is one lemma for each way in which a printer puts
texts together, so that whatever is printed by these ways can be read again.
-/

namespace IndicatorCompiler.Script

open Grammar (Suffix)
open Text (Rendered)
open String (append_assoc toList_append)

/-! ## Pieces -/

variable {ks ks' : List Kind} {text name text' : String} {after : Char → Bool} {texts : List String}

theorem Lexes.cast
    (h : Lexes after text ks) (htext : text = text') (hks : ks = ks') : Lexes after text' ks' := by
  subst htext hks
  exact h

theorem lexes_lParen : Lexes anything "(" [.punct .lParen] := lexes_punct (p := .lParen) rfl
theorem lexes_rParen : Lexes anything ")" [.punct .rParen] := lexes_punct (p := .rParen) rfl
theorem lexes_lBracket : Lexes anything "[" [.punct .lBracket] := lexes_punct (p := .lBracket) rfl
theorem lexes_rBracket : Lexes anything "]" [.punct .rBracket] := lexes_punct (p := .rBracket) rfl
theorem lexes_lBrace : Lexes anything "\x7b" [.punct .lBrace] := lexes_punct (p := .lBrace) rfl
theorem lexes_rBrace : Lexes anything "\x7d" [.punct .rBrace] := lexes_punct (p := .rBrace) rfl
theorem lexes_semicolon : Lexes anything ";" [.punct .semicolon] :=
  lexes_punct (p := .semicolon) rfl
theorem lexes_ellipsis : Lexes anything "..." [.punct .ellipsis] := lexes_punct (p := .ellipsis) rfl

theorem lexes_comma : Lexes anything ", " [.punct .comma] := lexes_punct_blank .comma
theorem lexes_colon : Lexes anything ": " [.punct .colon] := lexes_punct_blank .colon

theorem Lexes.indented (h : Lexes after text ks) : Lexes after (" " ++ text) ks :=
  lexes_blank.followed h

theorem lexes_word {word} (h : isName word = true) : Lexes anything (word ++ " ") [.ident word] :=
  (lexes_name h).before lexes_blank rfl (by decide)

/-- A piece in front of a text that ends it. -/
theorem Lexes.closedBy {ch} (h : Lexes endsNumber text ks) (h' : Lexes anything text' ks')
    (hhead : text'.toList.head? = some ch) (hch : endsNumber ch = true) :
    Lexes anything (text ++ text') (ks ++ ks') :=
  h.before h' hhead hch

theorem lexes_commas {kss} (h : List.Forall₂ (Lexes endsNumber) texts kss) :
    Lexes endsNumber (commas texts) (commaKinds kss) := by
  induction h with
  | nil => exact Lexes.nil
  | @cons text ks texts kss first rest ih =>
    cases rest with
    | nil => exact first.cast rfl (by simp [commaKinds])
    | cons second rest =>
      rw [commaKinds_cons_cons]
      exact ((first.closedBy lexes_comma rfl rfl).followed ih).cast rfl (by simp)

/-- What every text lexes to, where each of them lexes to something. -/
theorem exists_kinds {α : Type} {P : List Kind → α → Prop} {as}
    (h : List.Forall₂ (fun text a => ∃ ks, Lexes after text ks ∧ P ks a) texts as) :
    ∃ kss, List.Forall₂ (Lexes after) texts kss ∧ List.Forall₂ P kss as := by
  induction h with
  | nil => exact ⟨[], .nil, .nil⟩
  | cons first _ ih =>
    obtain ⟨ks, hlexes, hks⟩ := first
    obtain ⟨kss, hkss, hrest⟩ := ih
    exact ⟨ks :: kss, .cons hlexes hkss, .cons hks hrest⟩

/-! ## How a text begins -/

/-- The text begins with a character that can follow an operator, and it shows when its first token
would start a block or a declaration. -/
structure Begins (text : String) (ks : List Kind) : Prop where
  char : ∃ c rest, text.toList = c :: rest ∧ c ≠ '='
  brace : ks.head? = some (.punct .lBrace) → Text.beginsWith '\x7b' text = true
  function : ks.head? = some (.ident "function") → text.startsWith "function " = true

theorem Begins.append (h : Begins text ks) (hne : ks ≠ [])
    (text' : String) (ks' : List Kind) : Begins (text ++ text') (ks ++ ks') where
  char := by
    obtain ⟨c, rest, htext, hc⟩ := h.char
    exact ⟨c, rest ++ text'.toList, by rw [toList_append, htext]; rfl, hc⟩
  brace hhead := by
    rw [List.head?_append_of_ne_nil _ hne] at hhead
    have hbegins := h.brace hhead
    rw [Text.beginsWith_eq] at hbegins ⊢
    obtain ⟨c, rest, htext, -⟩ := h.char
    rw [toList_append, htext]
    rwa [htext] at hbegins
  function hhead := by
    rw [List.head?_append_of_ne_nil _ hne] at hhead
    have hstarts := h.function hhead
    rw [String.startsWith_string_iff] at hstarts ⊢
    rw [toList_append]
    exact hstarts.trans (List.prefix_append _ _)

theorem Begins.cast (h : Begins text ks) (htext : text = text') : Begins text' ks := by
  subst htext
  exact h

/-- A text that begins neither with a brace nor with a word. -/
theorem begins_of_head {k c} (htext : text.toList.head? = some c) (hc : c ≠ '=')
    (hbrace : k ≠ .punct .lBrace) (hfunction : k ≠ .ident "function") : Begins text (k :: ks) where
  char := by
    obtain ⟨rest, hrest⟩ := List.head?_eq_some_iff.mp htext
    exact ⟨c, rest, hrest, hc⟩
  brace hhead := absurd (Option.some.inj hhead) hbrace
  function hhead := absurd (Option.some.inj hhead) hfunction

/-! ## Printed expressions -/

/-- What an expression's accesses and calls start from. -/
def Expr.root : Expr → Expr
  | .member base _ | .index base _ => base.root
  | .call callee _ => callee.root
  | e => e

/-- The accesses and calls behind an expression's root. -/
def Expr.suffixes : Expr → List Suffix
  | .member base name => base.suffixes ++ [.member name]
  | .index base i => base.suffixes ++ [.index i]
  | .call callee args => callee.suffixes ++ [.call args]
  | _ => []

theorem foldl_suffixes (e : Expr) : e.suffixes.foldl Suffix.apply e.root = e := by
  induction e using Expr.suffixes.induct with
  | case1 base name ih | case2 base i ih
  | case3 callee args ih => simp [Expr.suffixes, Expr.root, ih, Suffix.apply]
  | case4 e hmember hindex hcall =>
    rw [Expr.suffixes.eq_def, Expr.root.eq_def]
    split <;> simp_all

/-- The text is read as `e` wherever an expression of strength `n` is asked for. -/
def Written (n : Nat) (text : String) (e : Expr) : Prop :=
  ∃ ks, Lexes endsNumber text ks ∧ Begins text ks ∧ Reads n ks e

/-- The rendered text is read as `e`.  If it is an atom with accesses and calls, none of these stand
in parentheses with what they apply to. -/
def Prints (after : Char → Bool) (r : Rendered) (e : Expr) : Prop :=
  ∃ ks, Lexes after r.text ks ∧ Begins r.text ks ∧ Reads r.strength ks e ∧
    (17 ≤ r.strength → SpineReads ks e.root e.suffixes)

/-- The text is read as what an access or a call applies to. -/
def WrittenBase (after : Char → Bool) (text : String) (e : Expr) : Prop :=
  ∃ ks, Lexes after text ks ∧ Begins text ks ∧ Reads 18 ks e ∧ SpineReads ks e.root e.suffixes

theorem endsName_of_endsNumber {c} (h : endsNumber c = true) : endsName c = true := by
  simp only [endsNumber, Bool.and_eq_true] at h
  exact h.1

/-- What may follow every expression ends it. -/
def Terminates (after : Char → Bool) : Prop := ∀ c, endsNumber c = true → after c = true

theorem terminates_endsNumber : Terminates endsNumber := fun _ h => h

theorem terminates_endsName : Terminates endsName := fun _ => endsName_of_endsNumber

theorem Lexes.parens (h : Lexes after text ks) (hafter : Terminates after) :
    Lexes anything ("(" ++ text ++ ")") (.punct .lParen :: (ks ++ [.punct .rParen])) :=
  (lexes_lParen.followed ((h.mono hafter).closedBy lexes_rParen rfl rfl)).cast
    (by simp only [append_assoc]) rfl

theorem begins_parens (text : String) (ks : List Kind) :
    Begins ("(" ++ text ++ ")") (.punct .lParen :: ks) :=
  begins_of_head (c := '(') (by simp only [toList_append]; rfl) (by decide) (by decide) (by decide)

namespace Prints

variable {after : Char → Bool} {r : Rendered} {e : Expr}

theorem within (h : Prints after r e) (hafter : Terminates after) (n : Nat) :
    Written n (r.within n) e := by
  obtain ⟨ks, hlexes, hbegins, hreads, -⟩ := h
  unfold Rendered.within
  split
  · exact ⟨_, (hlexes.parens hafter).weaken, begins_parens _ _, hreads.parens⟩
  · rename_i hstrength
    exact ⟨ks, hlexes.mono hafter, hbegins, hreads.mono (by omega)⟩

/-- A text in parentheses can be accessed and called. -/
theorem enclosedBase (h : Prints after r e) (hafter : Terminates after)
    (hsuffixes : e.suffixes = []) (after' : Char → Bool) : WrittenBase after' r.enclosed e := by
  obtain ⟨ks, hlexes, -, hreads, -⟩ := h
  have hroot : e.root = e := by
    have := foldl_suffixes e
    rwa [hsuffixes] at this
  have hparens : Reads 20 _ e := hreads.parens
  refine ⟨_, (hlexes.parens hafter).weaken, begins_parens _ _, hparens.mono (by omega), ?_⟩
  rw [hsuffixes, hroot]
  exact spineReads_atom (hparens.atom (by omega)) (hparens.opens.mono (by omega))

/-- A text that binds strongly enough can be accessed and called as it is. -/
theorem base (h : Prints after r e) (hafter : Terminates after)
    (hsuffixes : r.strength < 18 → e.suffixes = []) : WrittenBase after (r.within 18) e := by
  by_cases hstrength : r.strength < 18
  · rw [Rendered.within, if_pos hstrength]
    exact h.enclosedBase hafter (hsuffixes hstrength) after
  · obtain ⟨ks, hlexes, hbegins, hreads, hspine⟩ := h
    rw [Rendered.within, if_neg hstrength]
    exact ⟨ks, hlexes, hbegins, hreads.mono (by omega), hspine (by omega)⟩

end Prints

/-! ### Atoms -/

theorem prints_atom {e} (hlexes : Lexes after text ks) (hbegins : Begins text ks)
    (hreads : Reads 20 ks e) (hroot : e.root = e) (hsuffixes : e.suffixes = []) :
    Prints after ⟨text, Strength.primary⟩ e := by
  refine ⟨ks, hlexes, hbegins, hreads, fun _ => ?_⟩
  rw [hroot, hsuffixes]
  exact spineReads_atom (hreads.atom (by omega)) (hreads.opens.mono (by omega))

/-- A name begins with a letter, and only the word `function` would begin a function. -/
theorem begins_name (h : isName name = true) (hfunction : name ≠ "function") :
    Begins name [.ident name] := by
  obtain ⟨c, rest, htext, hc, -⟩ := isName_iff.mp h
  refine begins_of_head (c := c) (by rw [htext]; rfl) ?_ (by simp) (by simpa using hfunction)
  rintro rfl
  exact absurd hc (by decide)

theorem prints_ident (h : isName name = true) (hname : name ∉ reservedWords) :
    Prints endsName ⟨name, Strength.primary⟩ (.ident name) := by
  refine prints_atom (lexes_name h) (begins_name h ?_) (.ident hname) rfl rfl
  rintro rfl
  exact hname (by decide)

/-- A number begins with a digit. -/
theorem begins_numeral {whole fraction value} (htext : text.toList = Number.numeral whole fraction)
    (hne : whole ≠ []) (hwhole : ∀ c ∈ whole, c.isDigit = true) : Begins text [.num value] := by
  cases whole with
  | nil => exact absurd rfl hne
  | cons c whole =>
    refine begins_of_head (c := c) (by rw [htext]; rfl) ?_ (by simp) (by simp)
    rintro rfl
    exact absurd (hwhole '=' List.mem_cons_self) (by decide)

theorem begins_magnitude (x : Number.Magnitude) :
    Begins x.digits.positional [.num (.finite false x)] := by
  obtain ⟨whole, fraction, htext, hne, hwhole, -⟩ := x.positional_spec
  exact begins_numeral htext hne hwhole

theorem prints_magnitude (x : Number.Magnitude) :
    Prints endsNumber ⟨x.digits.positional, Strength.primary⟩ (.num (.finite false x)) :=
  prints_atom (lexes_magnitude x) (begins_magnitude x) (.num _) rfl rfl

/-- A point may follow a number that is written with one. -/
theorem prints_fraction {x} (h : '.' ∈ x.digits.positional.toList) :
    Prints endsName ⟨x.digits.positional, Strength.primary⟩ (.num (.finite false x)) :=
  prints_atom (lexes_fraction h) (begins_magnitude x) (.num _) rfl rfl

theorem prints_nat (n : Nat) : Prints endsNumber ⟨toString n, Strength.primary⟩ (.nat n) := by
  obtain ⟨htext, hne, hwhole⟩ := Number.toString_spec n
  have hlexes := lexes_numeral htext hne hwhole (by simp)
    fun rest hrest => (endsNumeral_of_endsNumber hrest).fraction []
  rw [Number.Double.ofLexeme_toString] at hlexes
  exact prints_atom hlexes (begins_numeral htext hne hwhole) (.num _) rfl rfl

theorem prints_str (value : String) :
    Prints endsName ⟨Text.quote value, Strength.primary⟩ (.str value) :=
  prints_atom (lexes_quote value).weaken
    (begins_of_head (c := '"') (by simp [Text.quote]) (by decide) (by simp) (by simp)) (.str _) rfl
    rfl

theorem prints_bool (value : Bool) :
    Prints endsName ⟨if value then "true" else "false", Strength.primary⟩ (.lit (.bool value)) := by
  cases value with
  | false => exact prints_atom (lexes_name rfl) (begins_name rfl (by decide)) (.bool false) rfl rfl
  | true => exact prints_atom (lexes_name rfl) (begins_name rfl (by decide)) (.bool true) rfl rfl

theorem prints_null : Prints endsName ⟨"null", Strength.primary⟩ (.lit .null) :=
  prints_atom (lexes_name rfl) (begins_name rfl (by decide)) .null rfl rfl

/-! ### Lists -/

section

variable {α : Type} {close : Punct} {item : Nested → Parser α} {texts : List String} {as : List α}

/-- The text is read as an item between commas. -/
def WrittenItem (close : Punct) (item : Nested → Parser α) (text : String) (a : α) : Prop :=
  ∃ ks, Lexes endsNumber text ks ∧ ItemPhrase close item ks a ∧ Balanced ks

theorem exists_items (h : List.Forall₂ (WrittenItem close item) texts as) :
    ∃ ks, Lexes endsNumber (commas texts) ks ∧ ReadsItems close item ks as ∧ Balanced ks := by
  obtain ⟨kss, hlexes, hphrases⟩ := exists_kinds h
  exact ⟨commaKinds kss, lexes_commas hlexes,
    readsItems_commaKinds (hphrases.imp fun _ _ h => h.1), balanced_of_forall₂ hphrases And.right⟩

theorem lexes_list (h : List.Forall₂ (WrittenItem .rParen item) texts as) :
    ∃ ks, Lexes anything ("(" ++ commas texts ++ ")") (.punct .lParen :: (ks ++ [.punct .rParen])) ∧
      ReadsItems .rParen item ks as ∧ Balanced ks := by
  obtain ⟨ks, hlexes, hitems, hbalanced⟩ := exists_items h
  exact ⟨ks, hlexes.parens terminates_endsNumber, hitems, hbalanced⟩

end

section

variable {n : Nat} {text : String} {e : Expr} {close : Punct}

theorem Written.mono {m} (h : Written n text e) (hmn : m ≤ n) : Written m text e := by
  obtain ⟨ks, hlexes, hbegins, hreads⟩ := h
  exact ⟨ks, hlexes, hbegins, hreads.mono hmn⟩

theorem Written.element (h : Written 2 text e) (hclose : stops 2 (.punct close) = true)
    (hopens : opensWith 2 (.punct close) = false) :
    WrittenItem close Grammar.element text e := by
  obtain ⟨ks, hlexes, -, hreads⟩ := h
  exact ⟨ks, hlexes, hreads.element hclose hopens, hreads.balanced⟩

theorem Written.spread (h : Written 2 text e) (hclose : stops 2 (.punct close) = true)
    (hne : close ≠ .ellipsis) :
    WrittenItem close Grammar.element ("..." ++ text) (.spread e) := by
  obtain ⟨ks, hlexes, -, hreads⟩ := h
  exact ⟨_, lexes_ellipsis.followed hlexes, hreads.spread hclose hne, hreads.balanced.cons rfl⟩

/-- The text is read as the key of a property. -/
def WrittenKey (text : String) (key : PropertyKey) : Prop :=
  ∃ ks, Lexes endsNumber text ks ∧ ReadsKey ks key

theorem writtenKey_name (h : isName name = true) : WrittenKey name (.name name) :=
  ⟨_, (lexes_name h).mono terminates_endsName, readsKey_name name⟩

theorem writtenKey_str (value : String) : WrittenKey (Text.quote value) (.str value) :=
  ⟨_, (lexes_quote value).weaken, readsKey_str value⟩

theorem Written.computedKey (h : Written 2 text e) :
    WrittenKey ("[" ++ text ++ "]") (.computed e) := by
  obtain ⟨ks, hlexes, -, hreads⟩ := h
  exact ⟨_, ((lexes_lBracket.followed (hlexes.closedBy lexes_rBracket rfl rfl)).weaken).cast
    (by simp only [append_assoc]) rfl, hreads.computedKey⟩

theorem writtenItem_short (h : isName name = true) :
    WrittenItem .rBrace Grammar.property name ⟨.name name, .ident name, true⟩ :=
  ⟨_, (lexes_name h).mono terminates_endsName, itemPhrase_short name, balanced_nil.cons rfl⟩

theorem WrittenKey.property {keyText key} (hkey : WrittenKey keyText key) (h : Written 2 text e) :
    WrittenItem .rBrace Grammar.property (keyText ++ ": " ++ text) ⟨key, e, false⟩ := by
  obtain ⟨kk, hlexesKey, hreadsKey⟩ := hkey
  obtain ⟨ks, hlexes, -, hreads⟩ := h
  refine ⟨kk ++ .punct .colon :: ks, ?_, hreadsKey.property hreads,
    hreadsKey.balanced.append (hreads.balanced.cons rfl)⟩
  exact ((hlexesKey.closedBy lexes_colon rfl rfl).followed hlexes).cast rfl (by simp)

theorem prints_array {items}
    (h : List.Forall₂ (WrittenItem .rBracket Grammar.element) texts items) :
    Prints endsName ⟨"[" ++ commas texts ++ "]", Strength.primary⟩ (.array items) := by
  obtain ⟨ks, hlexes, hitems, hbalanced⟩ := exists_items h
  refine prints_atom ?_ (begins_of_head (c := '[') ?_ (by decide) (by decide) (by decide))
    (.array hitems hbalanced) rfl rfl
  · exact ((lexes_lBracket.followed (hlexes.closedBy lexes_rBracket rfl rfl)).weaken).cast
      (by simp only [append_assoc]) rfl
  · simp only [toList_append]
    rfl

/-- Fields in braces are lexed to a list in braces. -/
theorem lexes_fields {α : Type} {item : Nested → Parser α} {as}
    (h : List.Forall₂ (WrittenItem .rBrace item) texts as) :
    ∃ ks, Lexes anything (fields texts) (.punct .lBrace :: (ks ++ [.punct .rBrace])) ∧
      ReadsItems .rBrace item ks as ∧ Balanced ks := by
  obtain ⟨ks, hlexes, hitems, hbalanced⟩ := exists_items h
  refine ⟨ks, ?_, hitems, hbalanced⟩
  cases h with
  | nil =>
    cases hitems
    exact lexes_lBrace.followed lexes_rBrace
  | cons first rest =>
    exact ((lexes_lBrace.followed lexes_blank).followed
      (hlexes.closedBy (lexes_blank.followed lexes_rBrace) rfl rfl)).cast
      (by simp only [fields, append_assoc]; rfl) rfl

theorem head?_fields (texts : List String) : (fields texts).toList.head? = some '\x7b' := by
  cases texts with
  | nil => rfl
  | cons text texts =>
    simp only [fields, toList_append]
    rfl

theorem begins_fields (texts : List String) (ks : List Kind) :
    Begins (fields texts) (.punct .lBrace :: ks) where
  char := by
    obtain ⟨rest, hrest⟩ := List.head?_eq_some_iff.mp (head?_fields texts)
    exact ⟨'\x7b', rest, hrest, by decide⟩
  brace _ := by
    obtain ⟨rest, hrest⟩ := List.head?_eq_some_iff.mp (head?_fields texts)
    rw [Text.beginsWith_eq, hrest]
    rfl
  function hhead := by simp at hhead

theorem prints_object {properties}
    (h : List.Forall₂ (WrittenItem .rBrace Grammar.property) texts properties) :
    Prints endsName ⟨fields texts, Strength.primary⟩ (.object properties) := by
  obtain ⟨ks, hlexes, hitems, hbalanced⟩ := lexes_fields h
  exact prints_atom hlexes.weaken (begins_fields _ _) (.object hitems hbalanced) rfl rfl

end

/-! ### Accesses and calls -/

section

variable {text : String} {e : Expr}

theorem WrittenBase.mono {after' : Char → Bool} (h : WrittenBase after text e)
    (hafter : ∀ c, after' c = true → after c = true) : WrittenBase after' text e := by
  obtain ⟨ks, hlexes, hrest⟩ := h
  exact ⟨ks, hlexes.mono hafter, hrest⟩

theorem Lexes.member (h : Lexes endsName text ks) (hname : isName name = true) :
    Lexes endsName (text ++ "." ++ name) (ks ++ [.punct .dot, .ident name]) :=
  (h.before (lexes_dot_name hname) (by rw [toList_append]; rfl) rfl).cast
    (by simp only [append_assoc]) rfl

theorem Lexes.index {inner ki} (h : Lexes endsNumber text ks) (hi : Lexes endsNumber inner ki) :
    Lexes anything (text ++ "[" ++ inner ++ "]") (ks ++ .punct .lBracket ::
      (ki ++ [.punct .rBracket])) :=
  ((h.closedBy lexes_lBracket rfl rfl).followed (hi.closedBy lexes_rBracket rfl rfl)).cast
    (by simp only [append_assoc]) (by simp)

theorem WrittenBase.member (h : WrittenBase endsName text e) (hname : isName name = true) :
    Prints endsName ⟨text ++ "." ++ name, Strength.call⟩ (.member e name) := by
  obtain ⟨ks, hlexes, hbegins, hreads, hspine⟩ := h
  refine ⟨_, hlexes.member hname, ?_, hreads.member name, fun _ => ?_⟩
  · exact (hbegins.append hreads.ne_nil ("." ++ name) _).cast (by simp only [append_assoc])
  · exact hspine.snoc ((readsBy_access_member name).suffix_of_access (by decide))
      (List.cons_ne_nil _ _)

theorem WrittenBase.index {n inner i} (h : WrittenBase endsNumber text e) (hi : Written n inner i) :
    Prints endsName ⟨text ++ "[" ++ inner ++ "]", Strength.call⟩ (.index e i) := by
  obtain ⟨ks, hlexes, hbegins, hreads, hspine⟩ := h
  obtain ⟨ki, hlexes', -, hreads'⟩ := hi
  refine ⟨_, (hlexes.index hlexes').weaken, ?_, hreads.index hreads', fun _ => ?_⟩
  · exact (hbegins.append hreads.ne_nil ("[" ++ inner ++ "]") _).cast
      (by simp only [append_assoc])
  · exact hspine.snoc ((readsBy_access_index hreads').suffix_of_access (by decide))
      (List.cons_ne_nil _ _)

theorem head?_parens (text : String) : ("(" ++ text ++ ")").toList.head? = some '(' := by
  simp only [toList_append]
  rfl

theorem WrittenBase.call {args} (h : WrittenBase endsNumber text e)
    (hargs : List.Forall₂ (WrittenItem .rParen Grammar.element) texts args) :
    Prints endsName ⟨text ++ "(" ++ commas texts ++ ")", Strength.call⟩ (.call e args) := by
  obtain ⟨ks, hlexes, hbegins, hreads, hspine⟩ := h
  obtain ⟨ka, hlexes', hitems, hbalanced⟩ := lexes_list hargs
  refine ⟨_, ?_, ?_, hreads.call hitems hbalanced, fun _ => ?_⟩
  · exact ((hlexes.closedBy hlexes' (head?_parens _) rfl).weaken).cast
      (by simp only [append_assoc]) rfl
  · exact (hbegins.append hreads.ne_nil ("(" ++ commas texts ++ ")") _).cast
      (by simp only [append_assoc])
  · exact hspine.snoc (readsBy_suffix_call hitems) (List.cons_ne_nil _ _)

end

/-! ### Constructors

`new` takes the first call behind it, so `new f().g()` calls the member `g` of what `new f()`
makes. -/

/-- What a word `new` in front of an expression makes of it: the first call behind the root becomes
the construction. -/
def Expr.asNew : Expr → Option Expr
  | .member base name => base.asNew.map (.member · name)
  | .index base i => base.asNew.map (.index · i)
  | .call callee args =>
    some (match callee.asNew with
      | some made => .call made args
      | none => .new callee args)
  | _ => none

/-- What is read behind `new`: a callee as it is written, and arguments. -/
def Expr.newOf (callee : Expr) (args : List Expr) : Expr :=
  match callee.asNew with
  | some made => .call made args
  | none => .new callee args

theorem asNew_call (callee : Expr) (args : List Expr) :
    (Expr.call callee args).asNew = some (callee.newOf args) := rfl

theorem isAccess_of_asNew_eq_none {e : Expr} (h : e.asNew = none) :
    ∀ suffix ∈ e.suffixes, suffix.isAccess = true := by
  induction e using Expr.suffixes.induct with
  | case1 base _ ih | case2 base _ ih =>
    simp only [Expr.asNew, Option.map_eq_none_iff] at h
    simp only [Expr.suffixes, List.mem_append, List.mem_singleton]
    rintro suffix (hsuffix | rfl)
    · exact ih h suffix hsuffix
    · rfl
  | case3 callee args ih => simp [Expr.asNew] at h
  | case4 e hmember hindex hcall =>
    rw [Expr.suffixes.eq_def]
    split <;> simp_all

/-- The first call behind the root, and what is in front of it and behind it. -/
theorem asNew_eq_some {e made : Expr} (h : e.asNew = some made) :
    ∃ accesses args more, e.suffixes = accesses ++ .call args :: more ∧
      (∀ suffix ∈ accesses, suffix.isAccess = true) ∧
      made.root = .new (accesses.foldl Suffix.apply e.root) args ∧ made.suffixes = more := by
  induction e using Expr.suffixes.induct generalizing made with
  | case1 base _ ih | case2 base _ ih =>
    obtain ⟨inner, hinner, rfl⟩ := Option.map_eq_some_iff.mp (show base.asNew.map _ = _ from h)
    obtain ⟨accesses, args, more, hsuffixes, haccess, hroot, hmore⟩ := ih hinner
    exact ⟨accesses, args, more ++ [_], by simp [Expr.suffixes, hsuffixes]; rfl, haccess, hroot,
      by simp [Expr.suffixes, hmore]⟩
  | case3 callee args ih =>
    cases hcallee : callee.asNew with
    | none =>
      obtain rfl : Expr.new callee args = made := by simpa [Expr.asNew, hcallee] using h
      refine ⟨callee.suffixes, args, [], rfl, isAccess_of_asNew_eq_none hcallee, ?_, rfl⟩
      show Expr.new callee args = .new (callee.suffixes.foldl Suffix.apply callee.root) args
      rw [foldl_suffixes]
    | some inner =>
      obtain rfl : Expr.call inner args = made := by simpa [Expr.asNew, hcallee] using h
      obtain ⟨accesses, args', more, hsuffixes, haccess, hroot, hmore⟩ := ih hcallee
      exact ⟨accesses, args', more ++ [.call args], by simp [Expr.suffixes, hsuffixes], haccess,
        hroot, by simp [Expr.suffixes, hmore]⟩
  | case4 e hmember hindex hcall =>
    rw [Expr.asNew.eq_def] at h
    split at h <;> simp_all

/-- The expression is a construction. -/
def Expr.isNew : Expr → Bool
  | .new _ _ => true
  | _ => false

/-- Only a construction starts with `new`. -/
theorem SpineReads.head?_ne_new {first more} (h : SpineReads ks first more)
    (hfirst : first.isNew = false) : ks.head? ≠ some (.ident "new") := by
  intro hhead
  obtain ⟨ks, rfl⟩ := List.head?_eq_some_iff.mp hhead
  let token (k : Kind) : Token := ⟨k, 0, ⟨1, 1⟩⟩
  let toks := (Kind.ident "new" :: ks).map token
  have hs : Spans ⟨toks, token .eof⟩ (.ident "new" :: ks) ⟨[], token .eof⟩ :=
    ⟨toks, by simp, by simp [toks, token, Function.comp_def], rfl⟩
  obtain ⟨s₁, hatom, -⟩ := h (Nat.le_refl _) hs
  rcases hatom with ⟨-, hnew⟩ | ⟨hne, -⟩
  · rw [Grammar.newExpr, succeeds_bind_iff] at hnew
    obtain ⟨callee, s₂, -, hnew⟩ := hnew
    rw [succeeds_bind_iff] at hnew
    obtain ⟨accesses, s₃, -, hnew⟩ := hnew
    rw [Parser.atPunct_bind_iff] at hnew
    split at hnew
    · rw [succeeds_bind_iff] at hnew
      obtain ⟨args, s₄, -, hnew⟩ := hnew
      obtain ⟨rfl, -⟩ := succeeds_pure_iff.mp hnew
      cases hfirst
    · rw [pure_bind] at hnew
      obtain ⟨rfl, -⟩ := succeeds_pure_iff.mp hnew
      cases hfirst
  · exact hne hs.current

section

variable {after : Char → Bool} {text : String} {texts : List String} {callee made : Expr}
    {args : List Expr}

theorem prints_new_of_spine {first accesses more} (hlexes : Lexes endsName text ks)
    (hbalanced : Balanced ks) (hne : ks ≠ []) (hnew : ks.head? ≠ some (.ident "new"))
    (hspine : SpineReads ks first (accesses ++ .call args :: more))
    (haccess : ∀ suffix ∈ accesses, suffix.isAccess = true)
    (hroot : made.root = .new (accesses.foldl Suffix.apply first) args)
    (hsuffixes : made.suffixes = more) : Prints endsName ⟨"new " ++ text, Strength.call⟩ made := by
  have hreads : SpineReads (.ident "new" :: ks) made.root made.suffixes := by
    rw [hroot, hsuffixes]
    exact hspine.new haccess hnew hne
  refine ⟨_, (lexes_word (show isName "new" = true from rfl)).followed hlexes, ?_, ?_,
    fun _ => hreads⟩
  · exact begins_of_head (c := 'n') (by rw [toList_append]; rfl) (by decide) (by decide)
      (by decide)
  · exact .of_spine (opens_cons (by decide)) (hbalanced.cons rfl) (noArrow_cons (by decide))
      ⟨_, _, foldl_suffixes made, hreads⟩

theorem WrittenBase.new (h : WrittenBase endsNumber text callee)
    (hcallee : callee.root.isNew = false)
    (hargs : List.Forall₂ (WrittenItem .rParen Grammar.element) texts args) :
    Prints endsName ⟨"new " ++ text ++ "(" ++ commas texts ++ ")", Strength.call⟩
    (callee.newOf args) := by
  obtain ⟨ks, hlexes, -, hreads, hspine⟩ := h.call hargs
  have hspine : SpineReads ks callee.root (callee.suffixes ++ [.call args]) :=
    hspine (Nat.le_succ 17)
  obtain ⟨accesses, args', more, hsuffixes, haccess, hroot, hmore⟩ :=
    asNew_eq_some (asNew_call callee args)
  have hprints := prints_new_of_spine hlexes hreads.balanced hreads.ne_nil
    (hspine.head?_ne_new hcallee) (hsuffixes ▸ hspine) haccess hroot hmore
  simpa only [append_assoc] using hprints

theorem Prints.newEnclosed {r} (h : Prints after r callee) (hafter : Terminates after)
    (hargs : List.Forall₂ (WrittenItem .rParen Grammar.element) texts args) :
    Prints endsName ⟨"new " ++ r.enclosed ++ "(" ++ commas texts ++ ")", Strength.call⟩
      (.new callee args) := by
  obtain ⟨ks, hlexes, -, hreads, -⟩ := h
  obtain ⟨ka, hlexes', hitems, hbalanced⟩ := lexes_list hargs
  have hparens : Reads 20 _ callee := hreads.parens
  have hspine : SpineReads _ callee ([] ++ Suffix.call args :: []) :=
    (spineReads_atom (hparens.atom (by omega)) (hparens.opens.mono (by omega))).snoc
      (readsBy_suffix_call hitems) (List.cons_ne_nil _ _)
  have hprints : Prints endsName _ (.new callee args) :=
    prints_new_of_spine ((hlexes.parens hafter).followed hlexes').weaken
      (hparens.balanced.append (.brackets rfl rfl hbalanced balanced_nil)) (by simp) (by simp)
      hspine (by simp) rfl rfl
  simpa only [Rendered.enclosed, append_assoc] using hprints

end

/-! ### Operators -/

/-- A text that is no atom with accesses and calls. -/
theorem prints_of_reads {n e} (hlexes : Lexes endsNumber text ks) (hbegins : Begins text ks)
    (hreads : Reads n ks e) (hn : n < 17) : Prints endsNumber ⟨text, n⟩ e :=
  ⟨ks, hlexes, hbegins, hreads, fun h => absurd h (Nat.not_le_of_lt hn)⟩

theorem Lexes.spaced (h : Lexes endsNumber text ks) (p : Punct) (h' : Lexes after text' ks') :
    Lexes after (text ++ " " ++ p.text ++ " " ++ text') (ks ++ .punct p :: ks') :=
  ((h.closedBy lexes_blank rfl rfl).followed ((lexes_punct_blank p).followed h')).cast
    (by simp only [append_assoc]) (by simp)

theorem Begins.before (hbegins : Begins text ks)
    (hne : ks ≠ []) (p : Punct) (text' : String) (ks' : List Kind) :
    Begins (text ++ " " ++ p.text ++ " " ++ text') (ks ++ .punct p :: ks') :=
  (hbegins.append hne (" " ++ p.text ++ " " ++ text') _).cast (by simp only [append_assoc])

/-- A sign in front of a text that does not go on with it. -/
theorem lexes_sign {op : UnaryOp} {c} (hop : op.isWord = false) (h : Lexes after text ks)
    (hhead : text.toList.head? = some c) (heq : c ≠ '=') (hneg : op = .neg → c ≠ '-')
    (hplus : op = .plus → c ≠ '+') : Lexes after (op.text ++ text) (op.kind :: ks) := by
  cases op with
  | neg => exact (lexes_plusMinus (.inl ⟨rfl, rfl⟩)).before h hhead (by simp [heq, hneg rfl])
  | plus => exact (lexes_plusMinus (.inr ⟨rfl, rfl⟩)).before h hhead (by simp [heq, hplus rfl])
  | not => exact lexes_bang.before h hhead (by simp [heq])
  | typeOf | void | delete => cases hop

section

variable {n : Nat} {text text' : String} {e e' : Expr}

theorem begins_operator (op : UnaryOp) (text : String) (ks : List Kind) :
    Begins (op.text ++ text) (op.kind :: ks) := by
  obtain ⟨c, hhead, hc⟩ : ∃ c, op.text.toList.head? = some c ∧ c ≠ '=' := by
    cases op <;> exact ⟨_, rfl, by decide⟩
  obtain ⟨rest, hrest⟩ := List.head?_eq_some_iff.mp hhead
  refine begins_of_head (c := c) ?_ hc (by cases op <;> decide) (by cases op <;> decide)
  rw [toList_append, hrest]
  rfl

theorem Written.unary (op : UnaryOp) (h : Written 15 text e) :
    Prints endsNumber ⟨unaryText op text, Strength.unary⟩ (.unary op e) := by
  obtain ⟨ks, hlexes, hbegins, hreads⟩ := h
  unfold unaryText
  split
  · rename_i hword
    refine prints_of_reads (n := 15) ?_ ?_ (hreads.unaryOperator op) (by omega)
    · cases op with
      | typeOf => exact (lexes_word (show isName "typeof" = true from rfl)).followed hlexes
      | void => exact (lexes_word (show isName "void" = true from rfl)).followed hlexes
      | delete => exact (lexes_word (show isName "delete" = true from rfl)).followed hlexes
      | neg | plus | not => cases hword
    · exact (begins_operator op (" " ++ text) ks).cast (by simp only [append_assoc])
  · rename_i hword
    have hword : op.isWord = false := by simpa using hword
    split
    · -- The operand goes on like the sign, so it stands in parentheses.
      have hparens : Reads 15 _ e := hreads.parens
      refine prints_of_reads (n := 15) ?_ ?_ (hparens.unaryOperator op) (by omega)
      · exact (lexes_sign hword (hlexes.parens terminates_endsNumber).weaken (head?_parens text)
          (by decide) (by simp) (by simp)).cast (by simp only [append_assoc]) rfl
      · exact (begins_operator op ("(" ++ text ++ ")") _).cast (by simp only [append_assoc])
    · rename_i hsign
      obtain ⟨c, rest, htext, hc⟩ := hbegins.char
      simp only [Text.beginsWith_eq, htext, List.head?_cons, Bool.or_eq_true, Bool.and_eq_true,
        decide_eq_true_eq, not_or, not_and] at hsign
      refine prints_of_reads (n := 15) ?_ (begins_operator op text ks) (hreads.unaryOperator op)
        (by omega)
      refine lexes_sign hword hlexes (by rw [htext]; rfl) hc ?_ ?_
      · intro hneg hminus
        exact hsign.1 hneg (by simp [hminus])
      · intro hplus hminus
        exact hsign.2 hplus (by simp [hminus])

theorem lexes_update (op : UpdateOp) : Lexes anything op.text [.punct op.punct] := by
  cases op with
  | increment => exact lexes_punct (p := .plusPlus) rfl
  | decrement => exact lexes_punct (p := .minusMinus) rfl

theorem head?_update (op : UpdateOp) :
    ∃ c, op.text.toList.head? = some c ∧ c ≠ '=' ∧ endsNumber c = true := by
  cases op <;> exact ⟨_, rfl, by decide, by decide⟩

theorem Written.prefixUpdate (op : UpdateOp) (h : Written 17 text e) :
    Prints endsNumber ⟨op.text ++ text, Strength.unary⟩ (.update op true e) := by
  obtain ⟨ks, hlexes, -, hreads⟩ := h
  refine prints_of_reads (n := 15) ((lexes_update op).followed hlexes) ?_
    ((hreads.mono (by omega)).prefixUpdate op) (by omega)
  obtain ⟨c, hhead, hc, -⟩ := head?_update op
  obtain ⟨rest, hrest⟩ := List.head?_eq_some_iff.mp hhead
  refine begins_of_head (c := c) ?_ hc (by cases op <;> decide) (by cases op <;> decide)
  rw [toList_append, hrest]
  rfl

theorem Written.postfixUpdate (op : UpdateOp) (h : Written 17 text e) :
    Prints endsNumber ⟨text ++ op.text, Strength.update⟩ (.update op false e) := by
  obtain ⟨ks, hlexes, hbegins, hreads⟩ := h
  obtain ⟨c, hhead, -, hc⟩ := head?_update op
  exact prints_of_reads (n := 16) (hlexes.closedBy (lexes_update op) hhead hc).weaken
    (hbegins.append hreads.ne_nil _ _) (hreads.postfixUpdate op) (by omega)

theorem BinaryOp.text_eq (op : BinaryOp) : op.text = op.punct.text := by cases op <;> rfl

theorem AssignOp.text_eq (op : AssignOp) : op.text = op.punct.text := by cases op <;> rfl

theorem Written.binary (op : BinaryOp) (hl : Written op.precedence text e)
    (hr : Written (op.precedence + 1) text' e') :
    Prints endsNumber ⟨text ++ " " ++ op.text ++ " " ++ text', op.precedence⟩
    (.binary op e e') := by
  obtain ⟨ks, hlexes, hbegins, hreads⟩ := hl
  obtain ⟨ks', hlexes', -, hreads'⟩ := hr
  have hprecedence := precedence_bounds op
  rw [BinaryOp.text_eq]
  exact prints_of_reads (hlexes.spaced op.punct hlexes') (hbegins.before hreads.ne_nil _ _ _)
    (hreads.binary op hreads') (by omega)

theorem Written.assign (op : AssignOp) (ht : Written 17 text e)
    (htarget : Grammar.isAssignable op e = true) (hv : Written 2 text' e') :
    Prints endsNumber ⟨text ++ " " ++ op.text ++ " " ++ text', Strength.assign⟩
    (.assign op e e') := by
  obtain ⟨ks, hlexes, hbegins, hreads⟩ := ht
  obtain ⟨ks', hlexes', -, hreads'⟩ := hv
  rw [AssignOp.text_eq]
  exact prints_of_reads (n := 2) (hlexes.spaced op.punct hlexes')
    (hbegins.before hreads.ne_nil _ _ _) ((hreads.mono (by omega)).assign op htarget hreads')
    (by omega)

theorem Written.choice {test t} (ht : Written 4 test t) (hc : Written 2 text e)
    (ha : Written 2 text' e') :
    Prints endsNumber ⟨test ++ " ? " ++ text ++ " : " ++ text', Strength.conditional⟩
      (.conditional t e e') := by
  obtain ⟨kt, hlexes, hbegins, hreads⟩ := ht
  obtain ⟨kc, hlexesC, -, hreadsC⟩ := hc
  obtain ⟨ka, hlexesA, -, hreadsA⟩ := ha
  have htext : test ++ " ? " ++ text ++ " : " ++ text' = test ++ " " ++
      Punct.question.text ++ " " ++ (text ++ " " ++ Punct.colon.text ++ " " ++ text') := by
    rw [show " ? " = " " ++ Punct.question.text ++ " " from rfl,
      show " : " = " " ++ Punct.colon.text ++ " " from rfl]
    simp only [append_assoc]
  rw [htext]
  exact prints_of_reads (n := 3) (hlexes.spaced .question (hlexesC.spaced .colon hlexesA))
    (hbegins.before hreads.ne_nil _ _ _) (hreads.choice hreadsC hreadsA) (by omega)

theorem prints_sequence {first second es}
    (h : List.Forall₂ (Written 2) (first :: second :: texts) es) :
    Prints endsNumber ⟨commas (first :: second :: texts), Strength.sequence⟩ (.sequence es) := by
  cases h with
  | cons item rest =>
    obtain ⟨ks, hlexes, hbegins, hreads⟩ := item
    obtain ⟨kss, hlexesRest, hreadsRest⟩ := exists_kinds (rest.imp
      fun text e (h : Written 2 text e) => show ∃ ks, Lexes endsNumber text ks ∧ Reads 2 ks e from
        let ⟨ks, hlexes, _, hreads⟩ := h
        ⟨ks, hlexes, hreads⟩)
    cases hlexesRest with
    | cons hlexes' hlexesRest =>
      cases hreadsRest with
      | cons hreads' hreadsRest =>
        refine prints_of_reads (n := 1) (lexes_commas (.cons hlexes (.cons hlexes' hlexesRest))) ?_
          (.sequence (.cons hreads (.cons hreads' hreadsRest))) (by omega)
        rw [commaKinds_cons_cons]
        exact (hbegins.append hreads.ne_nil (", " ++ commas (second :: texts)) _).cast
          (by simp only [commas, Text.joinWith, append_assoc])

end

end IndicatorCompiler.Script
