import IndicatorCompiler.Proofs.IndicatorLaws
import IndicatorCompiler.Proofs.ParserOutput
import IndicatorCompiler.Proofs.ScanSteps

/-!
# What the indicator parser returns

Every name of an indicator is a word that is not reserved, its numbers have no sign, and only names
and members are assigned to.
-/

namespace IndicatorCompiler.Pine

/-! ## Tokens -/

/-- A name of an indicator. -/
def IsIdentifier (name : String) : Prop := isWord name = true ∧ Keyword.ofWord? name = none

/-- A token that a text can have. -/
def Kind.Valid : Kind → Prop
  | .ident name => IsIdentifier name
  | .float value => (Script.Literal.num value).WellFormed
  | _ => True

theorem isWord_keyword (k : Keyword) : isWord k.text = true := by cases k <;> decide

theorem valid_numberKind (text : List Char) : (numberKind text).Valid := by
  unfold numberKind
  simp only
  split
  · exact Script.ofLexeme_wellFormed text
  · trivial

theorem valid_wordKind {c} (hc : startsName c = true) (rest : List Char) :
    (wordKind (c :: rest.takeWhile continuesName)).Valid := by
  unfold wordKind
  simp only
  split
  · trivial
  · rename_i hword
    refine ⟨?_, hword⟩
    simp only [isWord, String.toList_ofList, hc, Bool.true_and, List.all_eq_true]
    exact fun _ hx => List.mem_takeWhile_imp hx

theorem Lexed.valid {c rest kind n} (h : Lexed c rest kind n) : kind.Valid := by
  cases h with
  | number => exact valid_numberKind _
  | word hc => exact valid_wordKind hc rest
  | _ => trivial

namespace Scanner

/-- The token of a step, if it has one, is one that a text can have. -/
def Step.Valid : Step → Prop
  | emit token _ => token.kind.Valid
  | skip _ => True
  | finish token => token.kind.Valid

theorem valid_of_step {s : Scanner} {result} (h : s.step = .ok result) : result.Valid := by
  cases h ▸ stepped_step s with
  | reads _ _ _ hlex => exact hlex.valid
  | _ => trivial

theorem valid_of_tokens {s : Scanner} {tokens} (h : s.tokens = .ok tokens) :
    ∀ t ∈ tokens, t.kind.Valid := by
  replace h := scans_of_tokens h
  induction h with
  | finish hstep => exact List.forall_mem_singleton.mpr (valid_of_step hstep)
  | skip _ _ ih => exact ih
  | emit hstep _ ih => exact List.forall_mem_cons.mpr ⟨valid_of_step hstep, ih⟩

end Scanner

/-! ## Leaves -/

/-- A leaf that a source can have. -/
def Leaf.Valid : Leaf → Prop
  | .name n => IsIdentifier n
  | .property n => isWord n = true
  | .number value => (Script.Literal.num value).WellFormed
  | .access _ => True
  | .target assignable => assignable = true

/-- All leaves are ones that a source can have. -/
def AllValid (leaves : List Leaf) : Prop := ∀ leaf ∈ leaves, leaf.Valid

@[simp] theorem allValid_nil : AllValid [] := by simp [AllValid]

@[simp] theorem allValid_cons {leaf rest} : AllValid (leaf :: rest) ↔ leaf.Valid ∧
    AllValid rest := by
  simp [AllValid]

@[simp] theorem allValid_append {a b} : AllValid (a ++ b) ↔ AllValid a ∧ AllValid b := by
  simp [AllValid, or_imp, forall_and]

@[simp] theorem allValid_names {names : List String} :
    AllValid (names.map .name) ↔ ∀ n ∈ names, IsIdentifier n := by
  simp [AllValid, Leaf.Valid]

@[simp] theorem valid_name {n} : (Leaf.name n).Valid ↔ IsIdentifier n := Iff.rfl

@[simp] theorem valid_property {n} : (Leaf.property n).Valid ↔ isWord n = true := Iff.rfl

@[simp] theorem valid_access {numeral} : (Leaf.access numeral).Valid := trivial

theorem allValid_exprs {es} : AllValid (exprLeaves es) ↔ ∀ e ∈ es, AllValid e.leaves := by
  induction es with
  | nil => simp [exprLeaves]
  | cons e es ih => simp [exprLeaves, ih]

theorem allValid_arguments {args} : AllValid (argumentLeaves args) ↔
    ∀ a ∈ args, (∀ n ∈ a.name, isWord n = true) ∧ AllValid a.value.leaves := by
  induction args with
  | nil => simp [argumentLeaves]
  | cons a args ih =>
    obtain ⟨name, value⟩ := a
    cases name <;> simp [argumentLeaves, ih, and_assoc]

theorem allValid_branches {bs} : AllValid (branchLeaves bs) ↔
    ∀ b ∈ bs, AllValid b.test.leaves ∧ AllValid (stmtLeaves b.body) := by
  induction bs with
  | nil => simp [branchLeaves]
  | cons b bs ih =>
    obtain ⟨test, body⟩ := b
    simp [branchLeaves, ih, and_assoc]

theorem allValid_cases {cs} : AllValid (caseLeaves cs) ↔
    ∀ c ∈ cs, AllValid (optionLeaves c.test) ∧ AllValid (stmtLeaves c.body) := by
  induction cs with
  | nil => simp [caseLeaves]
  | cons c cs ih =>
    obtain ⟨test, body⟩ := c
    simp [caseLeaves, ih, and_assoc]

theorem allValid_params {ps} : AllValid (paramLeaves ps) ↔
    ∀ p ∈ ps, IsIdentifier p.name ∧ AllValid (optionLeaves p.default) := by
  induction ps with
  | nil => simp [paramLeaves]
  | cons p ps ih =>
    obtain ⟨name, type, default⟩ := p
    simp [paramLeaves, ih, and_assoc]

theorem allValid_fields {fs} : AllValid (fieldLeaves fs) ↔
    ∀ f ∈ fs, isWord f.name = true ∧ AllValid (optionLeaves f.default) := by
  induction fs with
  | nil => simp [fieldLeaves]
  | cons f fs ih =>
    obtain ⟨name, type, default⟩ := f
    simp [fieldLeaves, ih, and_assoc]

theorem allValid_stmts {stmts} :
    AllValid (stmtLeaves stmts) ↔ ∀ s ∈ stmts, AllValid s.kind.leaves := by
  induction stmts with
  | nil => simp [stmtLeaves]
  | cons s stmts ih =>
    obtain ⟨kind, line⟩ := s
    simp [stmtLeaves, ih]

/-! ## Programs -/

theorem allValid_option {e} : AllValid (optionLeaves e) ↔ ∀ x ∈ e, AllValid x.leaves := by
  cases e <;> simp [optionLeaves]

theorem valid_results {body : List Stmt}
    (h : Resulting (fun kind => AllValid kind.leaves) (fun e => AllValid e.leaves) body) :
    AllValid (stmtLeaves body) := by
  induction h with
  | nil => exact allValid_nil
  | result hvalue => exact allValid_append.mpr ⟨hvalue, allValid_nil⟩
  | @cons s rest hs _ ih =>
    obtain ⟨kind, line⟩ := s
    exact allValid_append.mpr ⟨hs, ih⟩

/-- What is read from tokens that a text can have has leaves that a source can have. -/
def validLaw (V : View) : Law where
  toView := V
  Token := Kind.Valid
  Line _ := True
  Expression _ e := AllValid e.leaves
  Value _ e := AllValid e.leaves
  Statement _ kind := AllValid kind.leaves
  eof := trivial
  ident h := allValid_cons.mpr ⟨h, allValid_nil⟩
  float h := allValid_cons.mpr ⟨h, allValid_nil⟩
  literal {n e} h := by cases e <;> first | exact allValid_nil | cases h
  group h := h
  tuple h := allValid_exprs.mpr h
  call hcallee hargs := allValid_append.mpr ⟨hcallee, allValid_arguments.mpr fun a ha =>
    ⟨fun name hname => ((hargs a ha).1 name hname).1, (hargs a ha).2⟩⟩
  history htarget hoffset := allValid_append.mpr ⟨htarget, hoffset⟩
  member hobject h := by
    refine allValid_cons.mpr ⟨trivial, allValid_cons.mpr ⟨?_, hobject⟩⟩
    rcases h with h | ⟨k, rfl⟩
    · exact h.1
    · exact isWord_keyword k
  unary h := h
  binary hleft hright := allValid_append.mpr ⟨hleft, hright⟩
  ternary htest hconsequent halternate :=
    allValid_append.mpr ⟨allValid_append.mpr ⟨htest, hconsequent⟩, halternate⟩
  value h := h
  choice htest hconsequent halternate :=
    allValid_append.mpr ⟨allValid_append.mpr ⟨htest, hconsequent⟩, halternate⟩
  conditional {n branches last} _ _ htests hbodies hlast := by
    have hbranches :=
      allValid_branches.mpr fun b hb => ⟨htests b hb, allValid_stmts.mpr (hbodies b hb)⟩
    cases last with
    | none => exact allValid_append.mpr ⟨hbranches, allValid_nil⟩
    | some body => exact allValid_append.mpr ⟨hbranches, allValid_stmts.mpr (hlast body rfl)⟩
  switch {n discriminant cases} _ hdiscriminant htests hbodies := by
    have hcases := allValid_cases.mpr fun c hc =>
      ⟨allValid_option.mpr (htests c hc), allValid_stmts.mpr (hbodies c hc)⟩
    cases discriminant with
    | none => exact allValid_append.mpr ⟨allValid_nil, hcases⟩
    | some e => exact allValid_append.mpr ⟨hdiscriminant e rfl, hcases⟩
  expr h := h
  varDecl hnames hinit := allValid_append.mpr ⟨allValid_names.mpr hnames, hinit⟩
  reassign hassignable htarget hvalue :=
    allValid_cons.mpr ⟨hassignable, allValid_append.mpr ⟨htarget, hvalue⟩⟩
  ifElse htest hbody hotherwise := allValid_append.mpr
    ⟨allValid_append.mpr ⟨htest, allValid_stmts.mpr hbody⟩, allValid_stmts.mpr hotherwise⟩
  function hname hparams hbody := allValid_cons.mpr ⟨hname, allValid_append.mpr
    ⟨allValid_params.mpr fun p hp => ⟨(hparams p hp).1, allValid_option.mpr (hparams p hp).2⟩,
      valid_results hbody⟩⟩
  typeDecl hname hfields := allValid_cons.mpr ⟨hname, allValid_fields.mpr fun f hf =>
    ⟨(hfields f hf).1.1, allValid_option.mpr (hfields f hf).2⟩⟩
  forRange hcounter hstart hstop hstep hbody := allValid_cons.mpr ⟨hcounter, allValid_append.mpr
    ⟨allValid_append.mpr ⟨allValid_append.mpr ⟨hstart, hstop⟩, allValid_option.mpr hstep⟩,
      allValid_stmts.mpr hbody⟩⟩
  forIn {n target iterable body} hnames hiterable hbody := by
    have haccess : AllValid (target.access iterable) := by cases target <;> simp [ForTarget.access]
    exact allValid_append.mpr ⟨allValid_append.mpr ⟨allValid_append.mpr
      ⟨allValid_names.mpr hnames, haccess⟩, hiterable⟩, allValid_stmts.mpr hbody⟩
  whileLoop htest hbody := allValid_append.mpr ⟨htest, allValid_stmts.mpr hbody⟩
  breakLoop := allValid_nil
  continueLoop := allValid_nil

/-- Tokens that no parser tells apart are read as the same program, whose leaves a source can have,
or refused at related tokens. -/
theorem Program.agrees_ofTokens {V : View} {ts us} (h : List.Forall₂ V.Same ts us)
    (hending : V.Same (Stream.ofTokens ts).ending (Stream.ofTokens us).ending)
    (hvalid : ∀ t ∈ ts, t.kind.Valid) :
    (∃ program, ofTokens ts = .ok program ∧ ofTokens us = .ok program ∧
      AllValid (stmtLeaves program.body)) ∨
      ∃ e f, ofTokens ts = .error e ∧ ofTokens us = .error f ∧ V.Errors e f := by
  simp only [allValid_stmts]
  exact outcomes_ofTokens (validLaw V) h hending hvalid (linesAt_true ts)

/-- What is read from a source has only leaves that a source can have. -/
theorem valid_of_ofSource {source : String} {program} (h : Program.ofSource source = .ok program) :
    AllValid (stmtLeaves program.body) := by
  unfold Program.ofSource at h
  split at h
  · cases h
  · rename_i tokens hscan
    split at h
    · cases h
    · rename_i program' hparse
      cases h
      exact allValid_stmts.mpr (Program.statement_of_ofTokens (validLaw .exact) rfl hparse
        (Scanner.valid_of_tokens hscan) (linesAt_true tokens))

end IndicatorCompiler.Pine
