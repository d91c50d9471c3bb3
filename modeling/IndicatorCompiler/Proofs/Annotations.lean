import IndicatorCompiler.Proofs.IndicatorLaws
import IndicatorCompiler.Proofs.Succeeds

/-!
# Annotations of parsed trees

A lowering trusts what the parser notes in a tree: which values have to be lifted, and where a
function returns.  Both are noted once, from parts that are built again later on.  In every program
that is read, a conditional is there only if it has to be lifted, a `switch` says of itself whether
it has to be, and a function returns at its end and nowhere else.
-/

namespace IndicatorCompiler.Pine

/-! ## Phrases -/

/-- A part of a tree: an expression, or the statements of a body. -/
inductive Phrase where
  | expr (e : Expr)
  | body (ofFunction : Bool) (stmts : List Stmt)

/-- The phrases that stand directly inside an expression. -/
@[simp] def Expr.parts : Expr → List Phrase
  | .binary _ left right => [.expr left, .expr right]
  | .unary _ operand => [.expr operand]
  | .ternary test consequent alternate => [.expr test, .expr consequent, .expr alternate]
  | .call callee _ args => .expr callee :: args.map (.expr ·.value)
  | .member object _ => [.expr object]
  | .history target offset => [.expr target, .expr offset]
  | .tuple items => items.map .expr
  | .conditional branches otherwise _ =>
    branches.map (.expr ·.test) ++ branches.map (.body false ·.body) ++
      otherwise.toList.map (.body false)
  | .switch discriminant cases _ =>
    discriminant.toList.map .expr ++ cases.flatMap (·.test.toList.map .expr) ++
      cases.map (.body false ·.body)
  | .ident _ | .int _ | .float _ | .str _ | .bool _ | .color _ | .na => []

/-- The phrases that stand directly inside a statement. -/
@[simp] def StmtKind.parts : StmtKind → List Phrase
  | .varDecl _ _ _ init => [.expr init]
  | .reassign target _ value => [.expr target, .expr value]
  | .function _ _ params body _ => params.flatMap (·.default.toList.map .expr) ++ [.body true body]
  | .typeDecl _ fields _ => fields.flatMap (·.default.toList.map .expr)
  | .ifElse test body otherwise => [.expr test, .body false body, .body false otherwise]
  | .forRange _ start stop step body =>
    [.expr start, .expr stop] ++ step.toList.map .expr ++ [.body false body]
  | .forIn _ iterable body => [.expr iterable, .body false body]
  | .whileLoop test body => [.expr test, .body false body]
  | .ret value => value.toList.map .expr
  | .expr value => [.expr value]
  | .breakLoop | .continueLoop => []

namespace Phrase

/-- The phrases that stand directly inside. -/
@[simp] def parts : Phrase → List Phrase
  | .expr e => e.parts
  | .body _ stmts => stmts.flatMap (·.kind.parts)

/-- The second phrase is the first one, or stands inside it at any depth. -/
inductive Within : Phrase → Phrase → Prop
  | refl (p : Phrase) : Within p p
  | part {p q r} (hq : q ∈ p.parts) (h : Within q r) : Within p r

/-- All phrases within the phrase have the property. -/
def Throughout (P : Phrase → Prop) (p : Phrase) : Prop := ∀ q, Within p q → P q

namespace Throughout

variable {P : Phrase → Prop} {p : Phrase}

theorem of (hp : P p) (hparts : ∀ q ∈ p.parts, Throughout P q) : Throughout P p := by
  intro r hr
  cases hr with
  | refl => exact hp
  | part hq hr => exact hparts _ hq r hr

theorem parts (h : Throughout P p) : ∀ q ∈ p.parts, Throughout P q :=
  fun _ hq r hr => h r (.part hq hr)

end Throughout

end Phrase

/-- The whole program as a phrase. -/
abbrev Program.phrase (program : Program) : Phrase := .body false program.body

/-! ## Annotations -/

/-- The phrase says of itself what its parts say. -/
def Phrase.Annotated : Phrase → Prop
  | .expr (.conditional branches otherwise lifts) => lifts = true ∧
    ((∃ b ∈ branches, bodyNeedsLifting b.body = true) ∨
      ∃ body ∈ otherwise, bodyNeedsLifting body = true)
  | .expr (.switch _ cases lifts) => lifts = true ↔ ∃ c ∈ cases, bodyNeedsLifting c.body = true
  | .expr _ => True
  | .body ofFunction stmts => ∀ before value line behind,
    stmts = before ++ ⟨.ret value, line⟩ :: behind → ofFunction = true ∧ behind = []

/-- The statement is no result, and what stands inside it is annotated. -/
structure StmtKind.Annotated (kind : StmtKind) : Prop where
  result : ∀ value, kind ≠ .ret value
  parts : ∀ p ∈ kind.parts, p.Throughout Phrase.Annotated

/-- A body without results is annotated. -/
theorem annotated_body {stmts} (h : ∀ s ∈ stmts, s.kind.Annotated) :
    (Phrase.body false stmts).Throughout Phrase.Annotated := by
  refine .of ?_ ?_
  · intro before value line behind hsplit
    have hmem : ⟨.ret value, line⟩ ∈ stmts := by simp [hsplit]
    exact absurd rfl ((h _ hmem).result value)
  · intro p hp
    obtain ⟨s, hs, hp⟩ := List.mem_flatMap.mp hp
    exact (h s hs).parts p hp

/-- A function body gets its result at its end. -/
theorem annotated_results {stmts}
    (h : Resulting StmtKind.Annotated (fun e => (Phrase.expr e).Throughout Phrase.Annotated)
      stmts) :
    (Phrase.body true stmts).Throughout Phrase.Annotated := by
  induction h with
  | nil => exact .of (by simp [Phrase.Annotated]) (by simp)
  | result hvalue =>
    refine .of ?_ (by simpa using hvalue)
    intro before value line behind hsplit
    cases before with
    | nil => exact ⟨rfl, (List.cons.inj hsplit).2.symm⟩
    | cons first before => cases before <;> cases (List.cons.inj hsplit).2
  | cons hs _ ih =>
    refine .of ?_ ?_
    · intro before value line behind hsplit
      cases before with
      | nil => exact absurd (congrArg Stmt.kind (List.cons.inj hsplit).1) (hs.result value)
      | cons first before => exact ih _ (.refl _) before value line behind (List.cons.inj hsplit).2
    · intro p hp
      simp only [Phrase.parts, List.flatMap_cons, List.mem_append] at hp
      exact hp.elim (hs.parts p) (ih.parts p)

/-- What a parser makes is annotated, whatever its tokens are. -/
def annotatedLaw : Law where
  toView := .exact
  Token _ := True
  Line _ := True
  Expression _ e := (Phrase.expr e).Throughout Phrase.Annotated
  Value _ e := (Phrase.expr e).Throughout Phrase.Annotated
  Statement _ := StmtKind.Annotated
  eof := trivial
  ident _ := .of trivial (by simp)
  float _ := .of trivial (by simp)
  literal {n e} h := by
    cases e <;> simp only [Expr.isPlainLiteral, Bool.false_eq_true] at h <;>
      exact .of trivial (by simp)
  group h := h
  tuple h := .of trivial (by simpa using h)
  call hcallee hargs := .of trivial (by simpa using ⟨hcallee, fun a ha => (hargs a ha).2⟩)
  history htarget hoffset := .of trivial (by simpa using ⟨htarget, hoffset⟩)
  member hobject _ := .of trivial (by simpa using hobject)
  unary h := .of trivial (by simpa using h)
  binary hleft hright := .of trivial (by simpa using ⟨hleft, hright⟩)
  ternary htest hconsequent halternate :=
    .of trivial (by simpa using ⟨htest, hconsequent, halternate⟩)
  value h := h
  choice htest hconsequent halternate :=
    .of trivial (by simpa using ⟨htest, hconsequent, halternate⟩)
  conditional {n branches last} _ hlifts htests hbodies hlast := by
    refine .of ⟨rfl, by simpa [Option.any_eq_true] using hlifts⟩ ?_
    simp only [Phrase.parts, Expr.parts, List.forall_mem_append, List.forall_mem_map,
      Option.mem_toList]
    exact ⟨⟨htests, fun b hb => annotated_body (hbodies b hb)⟩,
      fun body hbody => annotated_body (hlast body hbody)⟩
  switch {n discriminant cases} _ hdiscriminant htests hbodies := by
    refine .of (by simp [switchValue, Phrase.Annotated]) ?_
    simp only [switchValue, Phrase.parts, Expr.parts, List.forall_mem_append, List.forall_mem_map,
      List.forall_mem_flatMap, Option.mem_toList]
    exact ⟨⟨hdiscriminant, htests⟩, fun c hc => annotated_body (hbodies c hc)⟩
  expr h := ⟨nofun, by simpa using h⟩
  varDecl _ hinit := ⟨nofun, by simpa using hinit⟩
  reassign _ htarget hvalue := ⟨nofun, by simpa using ⟨htarget, hvalue⟩⟩
  ifElse htest hbody hotherwise :=
    ⟨nofun, by simpa using ⟨htest, annotated_body hbody, annotated_body hotherwise⟩⟩
  function _ hparams hbody := ⟨nofun, List.forall_mem_append.mpr
    ⟨List.forall_mem_flatMap.mpr fun p hp => by simpa using (hparams p hp).2,
      by simpa using annotated_results hbody⟩⟩
  typeDecl _ hfields :=
    ⟨nofun, List.forall_mem_flatMap.mpr fun f hf => by simpa using (hfields f hf).2⟩
  forRange _ hstart hstop hstep hbody := by
    refine ⟨nofun, List.forall_mem_append.mpr ⟨?_, by simpa using annotated_body hbody⟩⟩
    simpa using ⟨hstart, hstop, hstep⟩
  forIn _ hiterable hbody := ⟨nofun, by simpa using ⟨hiterable, annotated_body hbody⟩⟩
  whileLoop htest hbody := ⟨nofun, by simpa using ⟨htest, annotated_body hbody⟩⟩
  breakLoop := ⟨nofun, by simp⟩
  continueLoop := ⟨nofun, by simp⟩

/-- Every phrase of a program that is read from tokens is annotated. -/
theorem annotated_of_ofTokens {tokens : List Token} {program : Program}
    (h : Program.ofTokens tokens = .ok program) :
    ∀ phrase, program.phrase.Within phrase → phrase.Annotated :=
  annotated_body (Program.statement_of_ofTokens annotatedLaw rfl h (fun _ _ => trivial)
    (linesAt_true tokens))

/-- The phrase is a value of several branches, and notes whether it has to be lifted. -/
def Phrase.isChoice (lifts : Bool) : Phrase → Bool
  | .expr (.conditional _ _ noted) | .expr (.switch _ _ noted) => noted == lifts
  | _ => false

/-- Two functions: the first has a value to be lifted and one that need not be, the result of the
second is its last `if`. -/
def graded : String :=
  "f(x) =>\n    y = if x\n        z = 1\n        z\n    else\n        2\n" ++
  "    switch y\n        1 => 2\n" ++
  "g(x) =>\n    if x\n        switch\n            x => v := 3\n    else if f(x)\n        4\n"

theorem graded_annotated : ∃ tokens program, scan graded = .ok tokens ∧
    Program.ofTokens tokens = .ok program ∧
    (program.phrase.parts.flatMap Phrase.parts).any (Phrase.isChoice true) = true ∧
    (program.phrase.parts.flatMap Phrase.parts).any (Phrase.isChoice false) = true ∧
    ∀ phrase, program.phrase.Within phrase → phrase.Annotated := by
  obtain ⟨tokens, hscan, hcheck⟩ := eq_ok_of_any (x := scan graded)
    (p := fun tokens => (Program.ofTokens tokens).toOption.any fun program =>
      (program.phrase.parts.flatMap Phrase.parts).any (Phrase.isChoice true) &&
        (program.phrase.parts.flatMap Phrase.parts).any (Phrase.isChoice false)) (by decide +kernel)
  obtain ⟨program, h, hcheck⟩ := eq_ok_of_any hcheck
  obtain ⟨hlifted, hplain⟩ := Bool.and_eq_true_iff.mp hcheck
  exact ⟨tokens, program, hscan, h, hlifted, hplain, annotated_of_ofTokens h⟩

end IndicatorCompiler.Pine
