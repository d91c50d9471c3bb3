import IndicatorCompiler.Proofs.Written

/-!
# Written patterns, functions and statements

The texts of patterns, functions and statements are read back as what they were printed from.  A
statement ends by itself, with a semicolon or a brace, so lines of statements can simply be put
together.
-/

namespace IndicatorCompiler.Script

open Text (Rendered)
open String (append_assoc toList_append)

/-! ## Patterns -/

/-- The text is read as what a declaration or a parameter binds. -/
def WrittenTarget (text : String) (p : Pattern) : Prop :=
  ∃ ks, Lexes endsNumber text ks ∧ ReadsTarget ks p

/-- The text is read as an element of a pattern or a parameter. -/
def WrittenElement (text : String) (p : Pattern) : Prop :=
  ∃ ks, Lexes endsNumber text ks ∧ ReadsElement ks p

variable {texts : List String} {ks : List Kind} {after : Char → Bool}

section

variable {text text' : String} {p : Pattern} {e : Expr}

theorem writtenTarget_ident {name} (h : isName name = true) (hname : name ∉ reservedWords) :
    WrittenTarget name (.ident name) :=
  ⟨_, (lexes_name h).mono terminates_endsName, readsTarget_ident hname⟩

theorem Lexes.withDefault {ks'} (h : Lexes endsNumber text ks) (h' : Lexes endsNumber text' ks') :
    Lexes endsNumber (text ++ " = " ++ text') (ks ++ .punct .eq :: ks') :=
  (h.spaced .eq h').cast
    (by rw [show " = " = " " ++ Punct.eq.text ++ " " from rfl]; simp only [append_assoc]) rfl

theorem WrittenTarget.element (h : WrittenTarget text p) : WrittenElement text p := by
  obtain ⟨ks, hlexes, hreads⟩ := h
  exact ⟨ks, hlexes, hreads.element⟩

theorem WrittenTarget.elementWithDefault (h : WrittenTarget text p) (hvalue : Written 2 text' e) :
    WrittenElement (text ++ " = " ++ text') (.withDefault p e) := by
  obtain ⟨ks, hlexes, hreads⟩ := h
  obtain ⟨ks', hlexes', -, hreads'⟩ := hvalue
  exact ⟨_, hlexes.withDefault hlexes', hreads.elementWithDefault hreads'⟩

theorem WrittenTarget.restElement (h : WrittenTarget text p) :
    WrittenElement ("..." ++ text) (.rest p) := by
  obtain ⟨ks, hlexes, hreads⟩ := h
  exact ⟨_, lexes_ellipsis.followed hlexes, hreads.restElement⟩

theorem WrittenElement.param (h : WrittenElement text p) :
    WrittenItem .rParen Grammar.patternElement text p := by
  obtain ⟨ks, hlexes, hreads⟩ := h
  exact ⟨ks, hlexes, hreads.param, hreads.balanced⟩

/-! ### Array patterns -/

/-- The text of an element of an array pattern; a hole is empty. -/
def WrittenSlot (text : String) : Option Pattern → Prop
  | none => text = ""
  | some p => WrittenElement text p

/-- Elements with commas between them, of which the last one is no hole. -/
theorem exists_slots {items} (h : List.Forall₂ WrittenSlot texts items)
    (hlast : items.getLast? ≠ some none) : ∃ ks, Lexes endsNumber (commas texts) ks ∧
      ReadsItems .rBracket Grammar.patternItem ks items ∧ Balanced ks := by
  induction h with
  | nil => exact ⟨[], .nil, .none, balanced_nil⟩
  | @cons text item texts items first rest ih =>
    cases rest with
    | nil =>
      cases item with
      | none => exact absurd rfl hlast
      | some p =>
        obtain ⟨ks, hlexes, hreads⟩ : WrittenElement text p := first
        have hitem := hreads.item
        exact ⟨ks, hlexes, .last hitem.nonempty hitem.opens (hitem.read.mono fun _ => .inr),
          hreads.balanced⟩
    | cons second rest =>
      obtain ⟨ks', hlexes', hitems, hbalanced⟩ := ih (by simpa using hlast)
      cases item with
      | none =>
        obtain rfl : text = "" := first
        refine ⟨.punct .comma :: ks', ?_, .more (by simp) readsInside_hole hitems,
          hbalanced.cons rfl⟩
        exact (lexes_comma.followed hlexes').cast rfl rfl
      | some p =>
        obtain ⟨ks, hlexes, hreads⟩ : WrittenElement text p := first
        have hitem := hreads.item
        refine ⟨ks ++ .punct .comma :: ks', ?_, .more ?_ (hitem.read.mono fun _ => .inl) hitems,
          hreads.balanced.append (hbalanced.cons rfl)⟩
        · exact ((hlexes.closedBy lexes_comma rfl rfl).followed hlexes').cast rfl (by simp)
        · rw [List.head?_append_of_ne_nil _ hitem.nonempty]
          exact hitem.opens

theorem writtenTarget_array {items} (h : List.Forall₂ WrittenSlot texts items)
    (hlast : items.getLast? ≠ some none) :
    WrittenTarget ("[" ++ commas texts ++ "]") (.array items) := by
  obtain ⟨ks, hlexes, hitems, hbalanced⟩ := exists_slots h hlast
  exact ⟨_, ((lexes_lBracket.followed (hlexes.closedBy lexes_rBracket rfl rfl)).weaken).cast
    (by simp only [append_assoc]) rfl, readsTarget_array hitems hbalanced⟩

/-! ### Object patterns -/

theorem writtenTarget_object {properties}
    (h : List.Forall₂ (WrittenItem .rBrace Grammar.patternProperty) texts properties) :
    WrittenTarget (fields texts) (.object properties) := by
  obtain ⟨ks, hlexes, hitems, hbalanced⟩ := lexes_fields h
  exact ⟨_, hlexes.weaken, readsTarget_object hitems hbalanced⟩

section

variable {key : String}

theorem writtenItem_shortTarget (hkey : isName key = true) :
    WrittenItem .rBrace Grammar.patternProperty key ⟨key, .ident key⟩ :=
  ⟨_, (lexes_name hkey).mono terminates_endsName, itemPhrase_shortTarget key, balanced_nil.cons rfl⟩

theorem Written.shortTargetWithDefault (hkey : isName key = true) (h : Written 2 text e) :
    WrittenItem .rBrace Grammar.patternProperty (key ++ " = " ++ text)
      ⟨key, .withDefault (.ident key) e⟩ := by
  obtain ⟨ks, hlexes, -, hreads⟩ := h
  exact ⟨_, ((lexes_name hkey).mono terminates_endsName).withDefault hlexes,
    hreads.shortTargetWithDefault key, (hreads.balanced.cons rfl).cons rfl⟩

theorem lexes_keyed (hkey : isName key = true) (h : Lexes endsNumber text ks) :
    Lexes endsNumber (key ++ ": " ++ text) (.ident key :: .punct .colon :: ks) :=
  (((lexes_name hkey).mono terminates_endsName).closedBy lexes_colon rfl rfl).followed h

theorem WrittenTarget.property (hkey : isName key = true) (h : WrittenTarget text p) :
    WrittenItem .rBrace Grammar.patternProperty (key ++ ": " ++ text) ⟨key, p⟩ := by
  obtain ⟨ks, hlexes, hreads⟩ := h
  exact ⟨_, lexes_keyed hkey hlexes, hreads.property key, (hreads.balanced.cons rfl).cons rfl⟩

theorem WrittenTarget.propertyWithDefault (hkey : isName key = true) (h : WrittenTarget text p)
    (hvalue : Written 2 text' e) :
    WrittenItem .rBrace Grammar.patternProperty (key ++ ": " ++ (text ++ " = " ++ text'))
      ⟨key, .withDefault p e⟩ := by
  obtain ⟨ks, hlexes, hreads⟩ := h
  obtain ⟨ks', hlexes', -, hreads'⟩ := hvalue
  exact ⟨_, lexes_keyed hkey (hlexes.withDefault hlexes'), hreads.propertyWithDefault key hreads',
    ((hreads.balanced.append (hreads'.balanced.cons rfl)).cons rfl).cons rfl⟩

theorem WrittenTarget.restProperty (h : WrittenTarget text p) :
    WrittenItem .rBrace Grammar.patternProperty ("..." ++ text) ⟨"", .rest p⟩ := by
  obtain ⟨ks, hlexes, hreads⟩ := h
  exact ⟨_, lexes_ellipsis.followed hlexes, hreads.restProperty, hreads.balanced.cons rfl⟩

end

end

/-! ## Lines in braces -/

/-- The text is read as statements one after another. -/
def WrittenLines (text : String) (stmts : List Stmt) : Prop :=
  ∃ ks, Lexes anything text ks ∧ ReadsStmts ks stmts

/-- The text is read as statements in braces. -/
def WrittenBlock (text : String) (body : List Stmt) : Prop :=
  ∃ ks, Lexes anything text (blockKinds ks) ∧ ReadsStmts ks body

/-- Behind the text stands the mark of its end alone. -/
theorem tokens_ended {c} (hc : c.rest = []) :
    ∃ token, tokens c = .ok [token] ∧ token.kind = .eof := by
  obtain ⟨rest, offset, position⟩ := c
  obtain rfl : rest = [] := hc
  exact ⟨_, by rw [tokens_eq, next, skipTrivia, trivia.eq_def], rfl⟩

theorem Lexes.eq_nil (h : Lexes after "" ks) : ks = [] := by
  let c : Text.Cursor := .ofText []
  obtain ⟨toks, c', hrest, hkinds, htokens⟩ := h (show c.rest = "".toList ++ [] from rfl) (by simp)
  obtain ⟨token, htoken, -⟩ := tokens_ended (show c.rest = [] from rfl)
  obtain ⟨token', htoken', -⟩ := tokens_ended hrest
  rw [htoken, htoken'] at htokens
  have hlength : [token] = toks ++ [token'] := Except.ok.inj htokens
  have hnil : toks = [] := by
    have := congrArg List.length hlength
    simpa using this
  rw [← hkinds, hnil]
  rfl

theorem WrittenLines.braced {inner body} (h : WrittenLines inner body) (level : Nat) :
    WrittenBlock (braced level inner) body := by
  obtain ⟨ks, hlexes, hreads⟩ := h
  refine ⟨ks, ?_, hreads⟩
  unfold Script.braced
  split
  · rename_i hempty
    obtain rfl : inner = "" := by simpa using hempty
    rw [hlexes.eq_nil]
    exact lexes_lBrace.followed lexes_rBrace
  · exact ((lexes_lBrace.followed lexes_newline).followed
      (hlexes.followed ((lexes_indentation level).followed lexes_rBrace))).cast
      (by rw [show "\x7b\n" = "\x7b" ++ "\n" from rfl]; simp only [append_assoc]) rfl

/-! ## Functions -/

/-- The texts are read as parameters. -/
abbrev WrittenParams : List String → List Pattern → Prop :=
  List.Forall₂ (WrittenItem .rParen Grammar.patternElement)

section

variable {texts : List String} {params : List Pattern} {text : String} {body : List Stmt} {e : Expr}

theorem lexes_functionRest (hparams : WrittenParams texts params) (hbody : WrittenBlock text body) :
    ∃ kp kb, Lexes anything ("(" ++ commas texts ++ ")" ++ " " ++ text) (functionKinds kp kb) ∧
      ReadsItems .rParen Grammar.patternElement kp params ∧ Balanced kp ∧ ReadsStmts kb body := by
  obtain ⟨kp, hlexes, hitems, hbalanced⟩ := lexes_list hparams
  obtain ⟨kb, hlexes', hreads⟩ := hbody
  refine ⟨kp, kb, ?_, hitems, hbalanced, hreads⟩
  exact ((hlexes.followed lexes_blank).followed hlexes').cast rfl
    (by simp [functionKinds, blockKinds])

theorem begins_function (rest : String) {text} (htext : text = "function " ++ rest)
    (ks : List Kind) : Begins text (.ident "function" :: ks) where
  char := ⟨'f', "unction ".toList ++ rest.toList, by rw [htext, toList_append]; rfl, by decide⟩
  brace hhead := by simp at hhead
  function _ := by
    rw [String.startsWith_string_iff, htext, toList_append]
    exact List.prefix_append _ _

theorem prints_function {name} (hname : ∀ w ∈ name, isName w = true ∧ w ∉ reservedWords)
    (hparams : WrittenParams texts params) (hbody : WrittenBlock text body) :
    Prints endsName ⟨functionHead name texts false ++ text, Strength.primary⟩
      (.function ⟨name, params, .block body, false⟩) := by
  obtain ⟨kp, kb, hlexes, hitems, hbalanced, hreads⟩ := lexes_functionRest hparams hbody
  have hword : Lexes anything "function " [.ident "function"] :=
    lexes_word (show isName "function" = true from rfl)
  refine prints_atom ?_ ?_ (.functionExpr hitems hbalanced hreads fun w hw =>
    (hname w hw).2) rfl rfl
  · cases name with
    | none => exact (hword.followed hlexes).weaken.cast (by simp [functionHead, append_assoc]) rfl
    | some name =>
      have hhead : ("(" ++ commas texts ++ ")" ++ " " ++ text).toList.head? = some '(' := by
        simp only [toList_append]
        rfl
      have hname := lexes_name (hname name rfl).1
      exact (hword.followed (hname.before hlexes hhead rfl)).weaken.cast
        (by simp [functionHead, append_assoc]) rfl
  · exact begins_function (name.getD "" ++ ("(" ++ commas texts ++ ")") ++ " " ++ text)
      (by simp only [functionHead, Bool.false_eq_true, if_false, append_assoc]) _

theorem lexes_arrow {kb} (hparams : WrittenParams texts params) (hbody : Lexes after text kb) :
    ∃ kp, Lexes after (functionHead none texts true ++ text) (arrowKinds kp kb) ∧
      ReadsItems .rParen Grammar.patternElement kp params ∧ Balanced kp := by
  obtain ⟨kp, hlexes, hitems, hbalanced⟩ := lexes_list hparams
  refine ⟨kp, ?_, hitems, hbalanced⟩
  have harrow : Lexes anything " => " [.punct .arrow] := (lexes_punct_blank .arrow).indented
  exact ((hlexes.followed harrow).followed hbody).cast
    (by simp [functionHead, append_assoc]) (by simp [arrowKinds])

theorem begins_arrow (texts : List String) (text : String) (ks : List Kind) :
    Begins (functionHead none texts true ++ text) (.punct .lParen :: ks) :=
  begins_of_head (c := '(') (by simp only [functionHead, if_true, toList_append]; rfl)
    (by decide) (by decide) (by decide)

theorem prints_arrowBlock (hparams : WrittenParams texts params) (hbody : WrittenBlock text body) :
    Prints endsNumber ⟨functionHead none texts true ++ text, Strength.assign⟩
      (.function ⟨none, params, .block body, true⟩) := by
  obtain ⟨kb, hlexes, hreads⟩ := hbody
  obtain ⟨kp, hlexes', hitems, hbalanced⟩ := lexes_arrow hparams hlexes
  exact prints_of_reads (n := 2) hlexes'.weaken (begins_arrow _ _ _)
    (.arrowBlock hitems hbalanced hreads) (by omega)

/-- An arrow whose body is no object that would look like a block. -/
theorem Written.arrow (hparams : WrittenParams texts params)
    (hbody : Written 2 text e) (hbrace : Text.beginsWith '\x7b' text = false) :
    Prints endsNumber ⟨functionHead none texts true ++ text, Strength.assign⟩
      (.function ⟨none, params, .expr e, true⟩) := by
  obtain ⟨kb, hlexes, hbegins, hreads⟩ := hbody
  obtain ⟨kp, hlexes', hitems, hbalanced⟩ := lexes_arrow hparams hlexes
  refine prints_of_reads (n := 2) hlexes' (begins_arrow _ _ _)
    (.arrowExpr hitems hbalanced hreads fun hhead => ?_) (by omega)
  rw [hbegins.brace hhead] at hbrace
  cases hbrace

theorem Written.arrowEnclosed (hparams : WrittenParams texts params) (hbody : Written 2 text e) :
    Prints endsNumber ⟨functionHead none texts true ++ ("(" ++ text ++ ")"), Strength.assign⟩
      (.function ⟨none, params, .expr e, true⟩) := by
  obtain ⟨kb, hlexes, -, hreads⟩ := hbody
  refine Written.arrow hparams ⟨_, (hlexes.parens terminates_endsNumber).weaken, begins_parens _ _,
    hreads.parens⟩ ?_
  rw [Text.beginsWith_eq, head?_parens]
  decide

end

/-! ## Statements -/

/-- The text is read as a statement. -/
def WrittenStmt (text : String) (stmt : Stmt) : Prop :=
  ∃ ks, Lexes anything text ks ∧ ReadsStmt ks stmt

section

variable {text text' : String} {stmt : Stmt} {stmts : List Stmt}

theorem writtenLines_nil : WrittenLines "" [] := ⟨[], .nil, .nil⟩

theorem WrittenStmt.line (h : WrittenStmt text stmt) (level : Nat)
    (hrest : WrittenLines text' stmts) :
    WrittenLines (lineText level text ++ text') (stmt :: stmts) := by
  obtain ⟨ks, hlexes, hreads⟩ := h
  obtain ⟨ks', hlexes', hreads'⟩ := hrest
  refine ⟨ks ++ ks', ?_, .cons hreads hreads'⟩
  exact (((lexes_indentation level).followed (hlexes.followed lexes_newline)).followed hlexes').cast
    (by simp only [lineText, append_assoc]) (by simp)

theorem WrittenBlock.blockStmt (h : WrittenBlock text stmts) : WrittenStmt text (.block stmts) := by
  obtain ⟨ks, hlexes, hreads⟩ := h
  exact ⟨_, hlexes, hreads.blockStmt⟩

theorem lexes_wordStmt {word} (h : isName word = true) :
    Lexes anything (word ++ ";") [.ident word, .punct .semicolon] :=
  (lexes_name h).before lexes_semicolon rfl (by decide)

theorem writtenStmt_break : WrittenStmt "break;" .breakLoop :=
  ⟨_, lexes_wordStmt (show isName "break" = true from rfl), readsStmt_break⟩

theorem writtenStmt_continue : WrittenStmt "continue;" .continueLoop :=
  ⟨_, lexes_wordStmt (show isName "continue" = true from rfl), readsStmt_continue⟩

theorem writtenStmt_return : WrittenStmt "return;" (.ret none) :=
  ⟨_, lexes_wordStmt (show isName "return" = true from rfl), readsStmt_return⟩

theorem writtenStmt_empty : WrittenStmt ";" .empty := ⟨_, lexes_semicolon, readsStmt_empty⟩

end

section

variable {n : Nat} {text : String} {e : Expr}

theorem Written.returnStmt (h : Written n text e) :
    WrittenStmt ("return " ++ text ++ ";") (.ret (some e)) := by
  obtain ⟨ks, hlexes, -, hreads⟩ := h
  exact ⟨_, ((lexes_word (show isName "return" = true from rfl)).followed
    (hlexes.closedBy lexes_semicolon rfl rfl)).cast (by simp only [append_assoc]; rfl) rfl,
    hreads.returnStmt⟩

/-- An expression that looks like a block or a function stands in parentheses. -/
theorem Written.stmt (h : Written n text e) : WrittenStmt (exprStmtText text) (.expr e) := by
  obtain ⟨ks, hlexes, hbegins, hreads⟩ := h
  unfold exprStmtText
  split
  · have hparens : Reads n _ e := hreads.parens
    exact ⟨_, ((hlexes.parens terminates_endsNumber).followed lexes_semicolon).cast
      (by rw [show ");" = ")" ++ ";" from rfl]; simp only [append_assoc]) rfl,
      hparens.stmt (by simp) (by simp)⟩
  · rename_i hplain
    simp only [Bool.or_eq_true, not_or, Bool.not_eq_true] at hplain
    refine ⟨_, hlexes.closedBy lexes_semicolon rfl rfl,
      hreads.stmt (fun hhead => ?_) fun hhead => ?_⟩
    · rw [hbegins.brace hhead] at hplain
      cases hplain.1
    · rw [hbegins.function hhead] at hplain
      cases hplain.2

theorem writtenStmt_function {name params body} (hname : isName name = true)
    (hword : name ∉ reservedWords) (hparams : WrittenParams texts params)
    (hbody : WrittenBlock text body) :
    WrittenStmt (functionHead (some name) texts false ++ text)
      (.function ⟨some name, params, .block body, false⟩) := by
  obtain ⟨kp, kb, hlexes, hitems, hbalanced, hreads⟩ := lexes_functionRest hparams hbody
  refine ⟨_, ?_, readsStmt_function hword hitems hbalanced hreads⟩
  have hhead : ("(" ++ commas texts ++ ")" ++ " " ++ text).toList.head? = some '(' := by
    simp only [toList_append]
    rfl
  exact ((lexes_word (show isName "function" = true from rfl)).followed
    ((lexes_name hname).before hlexes hhead rfl)).cast
    (by simp [functionHead, append_assoc]) rfl

end

/-! ### Declarations -/

/-- The text is read as a binding of a declaration. -/
def WrittenDeclarator (text : String) (d : Declarator) : Prop :=
  ∃ ks, Lexes endsNumber text ks ∧ ReadsDeclarator ks d

section

variable {text text' : String} {texts : List String} {p : Pattern} {e : Expr} {d : Declarator}
  {decls : List Declarator}

theorem WrittenTarget.declarator (h : WrittenTarget text p) : WrittenDeclarator text ⟨p, none⟩ := by
  obtain ⟨ks, hlexes, hreads⟩ := h
  exact ⟨ks, hlexes, .plain hreads⟩

theorem WrittenTarget.initialised (h : WrittenTarget text p) (hvalue : Written 2 text' e) :
    WrittenDeclarator (text ++ " = " ++ text') ⟨p, some e⟩ := by
  obtain ⟨ks, hlexes, hreads⟩ := h
  obtain ⟨ks', hlexes', -, hreads'⟩ := hvalue
  exact ⟨_, hlexes.withDefault hlexes', .init hreads hreads'⟩

theorem isName_varKind (kind : VarKind) : isName kind.text = true := by cases kind <;> rfl

theorem lexes_declaration (kind : VarKind) (h : List.Forall₂ WrittenDeclarator texts (d :: decls)) :
    ∃ ks kss, Lexes endsNumber (kind.text ++ " " ++ commas texts)
        (.ident kind.text :: commaKinds (ks :: kss)) ∧
      List.Forall₂ ReadsDeclarator (ks :: kss) (d :: decls) := by
  obtain ⟨kss, hlexes, hreads⟩ := exists_kinds h
  cases hreads with
  | @cons ks _ kss _ first rest =>
    exact ⟨ks, kss, (lexes_word (isName_varKind kind)).followed (lexes_commas hlexes),
      .cons first rest⟩

theorem writtenStmt_var (kind : VarKind) (h : List.Forall₂ WrittenDeclarator texts (d :: decls)) :
    WrittenStmt (kind.text ++ " " ++ commas texts ++ ";") (.var kind (d :: decls)) := by
  obtain ⟨ks, kss, hlexes, hreads⟩ := lexes_declaration kind h
  exact ⟨_, hlexes.closedBy lexes_semicolon rfl rfl, readsStmt_var kind hreads⟩

end

/-! ### Branches and loops -/

section

variable {n : Nat} {test text text' : String} {t : Expr} {body : List Stmt}

theorem lexes_test {word opening : String} {kt : List Kind} (hword : isName word = true)
    (hopening : opening = word ++ " " ++ "(") (ht : Lexes endsNumber test kt)
    (h : Lexes anything text ks) :
    Lexes anything (opening ++ test ++ ") " ++ text) (.ident word :: testKinds kt ks) := by
  have hparens := (ht.parens terminates_endsNumber).followed (lexes_blank.followed h)
  exact ((lexes_word hword).followed hparens).cast
    (by rw [hopening, show ") " = ")" ++ " " from rfl]; simp only [append_assoc])
    (by simp [testKinds])

theorem Written.ifStmt (ht : Written n test t) (hb : WrittenBlock text body) :
    WrittenStmt ("if (" ++ test ++ ") " ++ text) (.ifElse t (.block body) none) := by
  obtain ⟨kt, hlexes, -, hreads⟩ := ht
  obtain ⟨kb, hlexes', hreads'⟩ := hb
  exact ⟨_, lexes_test (show isName "if" = true from rfl) rfl hlexes hlexes',
    readsStmt_if hreads hreads'⟩

theorem Written.ifElseStmt {alternate} (ht : Written n test t) (hb : WrittenBlock text body)
    (ha : WrittenStmt text' alternate) :
    WrittenStmt ("if (" ++ test ++ ") " ++ text ++ (" else " ++ text'))
      (.ifElse t (.block body) (some alternate)) := by
  obtain ⟨kt, hlexes, -, hreads⟩ := ht
  obtain ⟨kb, hlexes', hreads'⟩ := hb
  obtain ⟨ka, hlexesA, hreadsA⟩ := ha
  have helse : Lexes anything (" else " ++ text') (.ident "else" :: ka) :=
    (lexes_word (show isName "else" = true from rfl)).indented.followed hlexesA
  exact ⟨_, (lexes_test (show isName "if" = true from rfl) rfl hlexes (hlexes'.followed helse)).cast
    (by simp only [append_assoc]; rfl) rfl, readsStmt_ifElse hreads hreads' hreadsA⟩

theorem Written.whileStmt (ht : Written n test t) (hb : WrittenBlock text body) :
    WrittenStmt ("while (" ++ test ++ ") " ++ text) (.whileLoop t (.block body)) := by
  obtain ⟨kt, hlexes, -, hreads⟩ := ht
  obtain ⟨kb, hlexes', hreads'⟩ := hb
  exact ⟨_, lexes_test (show isName "while" = true from rfl) rfl hlexes hlexes',
    readsStmt_while hreads hreads'⟩

theorem lexes_for {head kb} (hhead : Lexes endsNumber test head)
    (hb : Lexes anything text (blockKinds kb)) :
    Lexes anything ("for (" ++ test ++ ") " ++ text) (forKinds head kb) :=
  lexes_test (show isName "for" = true from rfl) rfl hhead hb

/-- The text is read as an expression that may be missing. -/
def WrittenOptional (text : String) (e : Option Expr) : Prop :=
  ∃ ks, Lexes endsNumber text ks ∧ ReadsOptional ks e

theorem writtenOptional_none : WrittenOptional (headPart none) none := ⟨[], .nil, .none⟩

theorem Written.optional (h : Written n text t) :
    WrittenOptional (headPart (some text)) (some t) := by
  obtain ⟨ks, hlexes, -, hreads⟩ := h
  exact ⟨ks, hlexes.indented, .some hreads⟩

section

variable {update init : String} {t? u? : Option Expr}

theorem lexes_counting {kt ku} (ht : Lexes endsNumber test kt) (hu : Lexes endsNumber update ku) :
    Lexes endsNumber (";" ++ test ++ ";" ++ update) (countingKinds kt ku) :=
  (lexes_semicolon.followed ((ht.closedBy lexes_semicolon rfl rfl).followed hu)).cast
    (by simp only [append_assoc]) (by simp [countingKinds])

/-- The start of a counting loop is read, and then the rest of the loop. -/
theorem WrittenOptional.counting (ht : WrittenOptional test t?) (hu : WrittenOptional update u?)
    (hb : WrittenBlock text body) {ki i?} (hi : Lexes endsNumber init ki)
    (hreads : ∀ {kt ku kb}, ReadsOptional kt t? → ReadsOptional ku u? → ReadsStmts kb body →
      ReadsStmt (forKinds (ki ++ countingKinds kt ku) kb) (.forLoop i? t? u? (.block body))) :
    WrittenStmt ("for (" ++ init ++ ";" ++ test ++ ";" ++ update ++ ") " ++ text)
      (.forLoop i? t? u? (.block body)) := by
  obtain ⟨kt, hlexesT, hreadsT⟩ := ht
  obtain ⟨ku, hlexesU, hreadsU⟩ := hu
  obtain ⟨kb, hlexesB, hreadsB⟩ := hb
  have hhead := hi.before (lexes_counting hlexesT hlexesU)
    (show (";" ++ test ++ ";" ++ update).toList.head? =
      some ';' by simp only [toList_append]; rfl) rfl
  exact ⟨_, (lexes_for hhead hlexesB).cast (by simp only [append_assoc]) rfl,
    hreads hreadsT hreadsU hreadsB⟩

theorem Written.forStmt (hi : Written n init t) (ht : WrittenOptional test t?)
    (hu : WrittenOptional update u?) (hb : WrittenBlock text body) :
    WrittenStmt ("for (" ++ init ++ ";" ++ test ++ ";" ++ update ++ ") " ++ text)
      (.forLoop (some (.expr t)) t? u? (.block body)) := by
  obtain ⟨ki, hlexes, -, hreads⟩ := hi
  exact ht.counting hu hb hlexes (readsStmt_forExpr hreads)

theorem writtenStmt_forDeclare (kind : VarKind) {d decls}
    (hd : List.Forall₂ WrittenDeclarator texts (d :: decls)) (ht : WrittenOptional test t?)
    (hu : WrittenOptional update u?) (hb : WrittenBlock text body) :
    WrittenStmt ("for (" ++ (kind.text ++ " " ++ commas texts) ++ ";" ++ test ++ ";" ++ update ++
        ") " ++ text)
      (.forLoop (some (.declare kind (d :: decls))) t? u? (.block body)) := by
  obtain ⟨ks, kss, hlexes, hreads⟩ := lexes_declaration kind hd
  exact ht.counting hu hb hlexes (readsStmt_forDeclare kind hreads)

end

section

variable {pattern right : String} {p : Pattern} {r : Expr}

theorem isName_forEachKind (each : ForEachKind) : isName each.text = true := by cases each <;> rfl

theorem lexes_forEach (each : ForEachKind) {kp kr} (hp : Lexes endsNumber pattern kp)
    (hr : Lexes endsNumber right kr) :
    Lexes endsNumber (pattern ++ " " ++ each.text ++ " " ++ right) (kp ++ .ident each.text :: kr) :=
  ((hp.closedBy lexes_blank rfl rfl).followed
    ((lexes_word (isName_forEachKind each)).followed hr)).cast
    (by simp only [append_assoc]) (by simp)

theorem WrittenTarget.forEachStmt (each : ForEachKind) (kind : VarKind)
    (hp : WrittenTarget pattern p) (hr : Written 2 right r) (hb : WrittenBlock text body) :
    WrittenStmt ("for (" ++ (kind.text ++ " ") ++ pattern ++ " " ++ each.text ++ " " ++ right ++
      ") " ++ text) (.forEach each (some kind) p r (.block body)) := by
  obtain ⟨kp, hlexesP, hreadsP⟩ := hp
  obtain ⟨kr, hlexesR, -, hreadsR⟩ := hr
  obtain ⟨kb, hlexesB, hreadsB⟩ := hb
  have hhead := (lexes_word (isName_varKind kind)).followed (lexes_forEach each hlexesP hlexesR)
  exact ⟨_, (lexes_for hhead hlexesB).cast (by simp only [append_assoc]) rfl,
    readsStmt_forEachDeclared each kind hreadsP hreadsR hreadsB⟩

theorem Written.forEachStmt (each : ForEachKind) (hx : Written n pattern t)
    (hp : t.toPattern? = some p) (hr : Written 2 right r) (hb : WrittenBlock text body) :
    WrittenStmt ("for (" ++ "" ++ pattern ++ " " ++ each.text ++ " " ++ right ++ ") " ++ text)
      (.forEach each none p r (.block body)) := by
  obtain ⟨kp, hlexesP, -, hreadsP⟩ := hx
  obtain ⟨kr, hlexesR, -, hreadsR⟩ := hr
  obtain ⟨kb, hlexesB, hreadsB⟩ := hb
  exact ⟨_, (lexes_for (lexes_forEach each hlexesP hlexesR) hlexesB).cast
    (by simp only [append_assoc, String.empty_append]) rfl,
    readsStmt_forEachAssigned each hreadsP hp hreadsR hreadsB⟩

end

end

/-! ## Scripts -/

theorem Lexes.scan {text} (h : Lexes after text ks) :
    ∃ toks last, scan text = .ok (toks ++ [last]) ∧ toks.map (·.kind) = ks ∧ last.kind = .eof := by
  let c : Text.Cursor := .ofText text.toList
  obtain ⟨toks, c', hrest, hkinds, htokens⟩ :=
    h (show c.rest = text.toList ++ [] from (List.append_nil _).symm) (by simp)
  obtain ⟨last, hended, hlast⟩ := tokens_ended hrest
  refine ⟨toks, last, ?_, hkinds, hlast⟩
  rw [Script.scan, show tokens (.ofText text.toList) = _ from htokens, hended]
  rfl

theorem WrittenLines.ofSource {source stmts} (h : WrittenLines source stmts) :
    Program.ofSource source = .ok ⟨stmts⟩ := by
  obtain ⟨ks, hlexes, hreads⟩ := h
  obtain ⟨toks, last, hscan, hkinds, hlast⟩ := hlexes.scan
  rw [Program.ofSource, hscan]
  simp only
  rw [hreads.ofTokens hkinds hlast]

theorem WrittenStmt.ofSource {source stmt} (h : WrittenStmt source stmt) :
    Program.ofSource source = .ok ⟨[stmt]⟩ := by
  obtain ⟨ks, hlexes, hreads⟩ := h
  exact WrittenLines.ofSource ⟨ks ++ [], hlexes.cast rfl (List.append_nil ks).symm,
    .cons hreads .nil⟩

end IndicatorCompiler.Script
