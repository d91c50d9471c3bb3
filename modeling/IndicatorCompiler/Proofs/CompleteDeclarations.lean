import IndicatorCompiler.Lowering.Generator
import IndicatorCompiler.Proofs.Annotations
import IndicatorCompiler.Proofs.ScanSteps

/-!
# Completeness of collected declarations

Before a program is lowered its declarations are collected, but not from everywhere: bounds and
tests of loops, defaults, targets of assignments, conditions and tests of cases are passed over.
Nothing is missed, since no statement can stand there.  Lines end outside of brackets only, so in
brackets there is no block, and without brackets only the value of a declaration, an assignment or a
statement can be an `if` or a `switch`.
-/

namespace IndicatorCompiler.Pine

open Lowering

/-! ## Bound names -/

/-- The names that a statement itself binds, without those of the statements inside it. -/
def StmtKind.binds : StmtKind → List String
  | .varDecl _ _ target _ => target.names
  | .function name _ params _ _ => name :: params.map (·.name)
  | .typeDecl name _ _ => [name]
  | .forRange counter _ _ _ _ => [counter]
  | .forIn target _ _ => target.names
  | _ => []

namespace Phrase

/-- The names that the statements of a phrase bind, without those of the statements inside them. -/
def binds : Phrase → List String
  | .expr _ => []
  | .body _ stmts => stmts.flatMap (·.kind.binds)

/-- What is bound within the phrase is among the declared names. -/
def Covered (names : List Declared) : Phrase → Prop :=
  Throughout fun p => p.binds ⊆ names.map (·.name)

namespace Covered

variable {p : Phrase} {e : Expr} {names more : List Declared}

theorem mono (h : p.Covered names) (hmore : names ⊆ more) : p.Covered more :=
  fun q hq => List.Subset.trans (h q hq) (List.map_subset _ hmore)

theorem expr (h : ∀ q ∈ e.parts, q.Covered names) : (Phrase.expr e).Covered names :=
  Throughout.of (List.nil_subset _) h

end Covered

/-- The phrase is no list of statements. -/
def isExpr : Phrase → Bool
  | .expr _ => true
  | .body _ _ => false

end Phrase

/-- No statements stand in the expression. -/
abbrev Expr.Plain (e : Expr) : Prop := (Phrase.expr e).Throughout (·.isExpr = true)

theorem Expr.Plain.of {e : Expr} (h : ∀ p ∈ e.parts, p.Throughout (·.isExpr = true)) : e.Plain :=
  Phrase.Throughout.of rfl h

/-- Without statements there is nothing to cover. -/
theorem Expr.Plain.covered {e} (h : e.Plain) (names : List Declared) :
    (Phrase.expr e).Covered names := by
  intro p hp
  cases p with
  | expr e => exact List.nil_subset _
  | body ofFunction stmts => cases h _ hp

/-! ## What is collected -/

@[simp] theorem names_declaredByTarget (target : DeclTarget) :
    (declaredByTarget target).map (·.name) = target.names := by
  cases target with
  | name name => rfl
  | tuple names => simp [declaredByTarget, DeclTarget.names, Function.comp_def, Declared.plain]

@[simp] theorem names_declaredByLoop (target : ForTarget) :
    (declaredByLoop target).map (·.name) = target.names := by
  cases target <;> rfl

theorem binds_subset (kind : StmtKind) : kind.binds ⊆ (declaredInStmt kind).map (·.name) := by
  cases kind with
  | varDecl | forIn | function | typeDecl | forRange =>
    simp [declaredInStmt, StmtKind.binds, Function.comp_def, Declared.plain]
  | _ => exact List.nil_subset _

/-- What is collected item by item is there from each item. -/
theorem subset_of_mem {α : Type} {f : List α → List Declared} {g : α → List Declared}
    (hf : ∀ a rest, f (a :: rest) = g a ++ f rest) {a as} (h : a ∈ as) : g a ⊆ f as := by
  induction h with
  | head rest => exact hf a rest ▸ List.subset_append_left _ _
  | tail first _ ih => exact hf first _ ▸ List.subset_append_of_subset_right _ ih

theorem declaredInExpr_conditional (branches : List Branch) (last : Option (List Stmt))
    (lifts : Bool) : declaredInExpr (.conditional branches last lifts) =
      declaredInBranches branches ++ (last.map declaredIn).getD [] := by
  cases last <;> simp [declaredInExpr]

/-- What stands inside the statement is covered by what it declares. -/
def StmtKind.Covered (kind : StmtKind) : Prop := ∀ p ∈ kind.parts, p.Covered (declaredInStmt kind)

theorem covered_body {ofFunction stmts} (h : ∀ s ∈ stmts, s.kind.Covered) :
    (Phrase.body ofFunction stmts).Covered (declaredIn stmts) := by
  have hstmt {s : Stmt} (hs : s ∈ stmts) : declaredInStmt s.kind ⊆ declaredIn stmts :=
    subset_of_mem (f := declaredIn) (g := fun s => declaredInStmt s.kind) (fun ⟨_, _⟩ _ => rfl) hs
  refine .of ?_ ?_
  · intro x hx
    obtain ⟨s, hs, hx⟩ := List.mem_flatMap.mp hx
    exact List.map_subset _ (hstmt hs) (binds_subset s.kind hx)
  · intro p hp
    obtain ⟨s, hs, hp⟩ := List.mem_flatMap.mp hp
    exact (h s hs p hp).mono (hstmt hs)

theorem forall_of_resulting {V : Expr → Prop} {body : List Stmt}
    (hV : ∀ value, V value → (Phrase.expr value).Covered (declaredInExpr value))
    (h : Resulting StmtKind.Covered V body) : ∀ s ∈ body, s.kind.Covered := by
  induction h with
  | nil => simp
  | result hvalue => simpa [StmtKind.Covered, declaredInStmt] using hV _ hvalue
  | cons hs _ ih => exact List.forall_mem_cons.mpr ⟨hs, ih⟩

/-- Statements stand in values only, and only outside of brackets; there they are collected. -/
def coveredLaw : Law where
  toView := .exact
  Token _ := True
  Line n := n = 0
  Expression _ e := e.Plain
  Value n e := (n ≠ 0 → e.Plain) ∧ (Phrase.expr e).Covered (declaredInExpr e)
  Statement _ := StmtKind.Covered
  eof := trivial
  ident _ := .of (by simp)
  float _ := .of (by simp)
  literal {n e} h := by
    cases e <;> simp only [Expr.isPlainLiteral, Bool.false_eq_true] at h <;> exact .of (by simp)
  group h := h.1 (Nat.succ_ne_zero _)
  tuple h := .of (by simpa using h)
  call hcallee hargs :=
    .of (by simpa using ⟨hcallee, fun a ha => (hargs a ha).2.1 (Nat.succ_ne_zero _)⟩)
  history htarget hoffset := .of (by simpa using ⟨htarget, hoffset⟩)
  member hobject _ := .of (by simpa using hobject)
  unary h := .of (by simpa using h)
  binary hleft hright := .of (by simpa using ⟨hleft, hright⟩)
  ternary htest hconsequent halternate := .of (by simpa using ⟨htest, hconsequent, halternate⟩)
  value h := ⟨fun _ => h, h.covered _⟩
  choice htest hconsequent halternate := by
    refine ⟨fun hn => .of (by simpa using ⟨htest, hconsequent.1 hn, halternate.1 hn⟩), .expr ?_⟩
    simpa [declaredInExpr] using
      ⟨htest.covered _, hconsequent.2.mono (by simp), halternate.2.mono (by simp)⟩
  conditional {n branches last} hline _ htests hbodies hlast := by
    refine ⟨fun hn => (hn hline).elim, .expr ?_⟩
    simp only [declaredInExpr_conditional, Expr.parts, List.forall_mem_append, List.forall_mem_map,
      Option.mem_toList]
    refine ⟨⟨fun b hb => (htests b hb).covered _,
      fun b hb => (covered_body (hbodies b hb)).mono ?_⟩, ?_⟩
    · exact List.subset_append_of_subset_left _ (subset_of_mem (f := declaredInBranches)
        (g := fun b => declaredIn b.body) (fun ⟨_, _⟩ _ => rfl) hb)
    · rintro body ⟨⟩
      exact (covered_body (hlast body rfl)).mono (List.subset_append_right _ _)
  switch {n discriminant cases} hline hdiscriminant htests hbodies := by
    refine ⟨fun hn => (hn hline).elim, .expr ?_⟩
    simp only [switchValue, Expr.parts, List.forall_mem_append, List.forall_mem_map,
      List.forall_mem_flatMap, Option.mem_toList]
    exact ⟨⟨fun e he => (hdiscriminant e he).covered _,
      fun c hc e he => (htests c hc e he).covered _⟩,
      fun c hc => (covered_body (hbodies c hc)).mono (subset_of_mem (f := declaredInCases)
        (g := fun c => declaredIn c.body) (fun ⟨_, _⟩ _ => rfl) hc)⟩
  expr h := by simpa [StmtKind.Covered, declaredInStmt] using h.2
  varDecl _ hinit := by simpa [StmtKind.Covered, declaredInStmt] using hinit.2.mono (by simp)
  reassign _ htarget hvalue := by
    simpa [StmtKind.Covered, declaredInStmt] using ⟨htarget.covered _, hvalue.2⟩
  ifElse htest hbody hotherwise := by
    simpa [StmtKind.Covered, declaredInStmt] using
      ⟨htest.covered _, (covered_body hbody).mono (by simp),
        (covered_body hotherwise).mono (by simp)⟩
  function _ hparams hbody := by
    refine List.forall_mem_append.mpr ⟨List.forall_mem_flatMap.mpr fun p hp => ?_, ?_⟩
    · simpa using fun e he => ((hparams p hp).2 e he).covered _
    · have hstmts := forall_of_resulting (fun _ h => h.2) hbody
      simpa [declaredInStmt] using (covered_body hstmts).mono (by simp)
  typeDecl _ hfields := List.forall_mem_flatMap.mpr fun f hf => by
    simpa using fun e he => ((hfields f hf).2 e he).covered _
  forRange _ hstart hstop hstep hbody := List.forall_mem_append.mpr
    ⟨by simpa using ⟨hstart.covered _, hstop.covered _, fun e he => (hstep e he).covered _⟩,
      by simpa [declaredInStmt] using (covered_body hbody).mono (by simp)⟩
  forIn _ hiterable hbody := by
    simpa [StmtKind.Covered, declaredInStmt] using
      ⟨hiterable.covered _, (covered_body hbody).mono (by simp)⟩
  whileLoop htest hbody := by
    simpa [StmtKind.Covered, declaredInStmt] using ⟨htest.covered _, covered_body hbody⟩
  breakLoop := by simp [StmtKind.Covered]
  continueLoop := by simp [StmtKind.Covered]

/-! ## Programs -/

/-- A step counts brackets, and ends a logical line only outside of them. -/
def Scanner.Step.Counts (depth : Nat) : Step → Prop
  | emit token next =>
    next.depth = depthAfter depth token.kind ∧ (token.kind = .newline → depth = 0)
  | skip next => next.depth = depth
  | finish token => token.kind = .eof

theorem Scanner.counts_step {s : Scanner} {result} (h : s.step = .ok result) :
    result.Counts s.depth := by
  cases h ▸ stepped_step s with
  | owed | opens | closes | closesLast => exact ⟨rfl, nofun⟩
  | finishes | skips => rfl
  | ends _ _ hdepth => exact ⟨rfl, fun _ => hdepth⟩
  | reads _ _ _ hlex => exact ⟨rfl, fun hkind => (hlex.isContent.2 hkind).elim⟩

/-- A scanner ends lines outside of brackets only. -/
theorem Scanner.linesAt_tokens {s : Scanner} {tokens} (h : s.tokens = .ok tokens) :
    LinesAt (· = 0) s.depth tokens := by
  replace h := scans_of_tokens h
  induction h with
  | @finish _ token hstep =>
    have hkind : token.kind = .eof := counts_step hstep
    exact ⟨by simp [hkind], trivial⟩
  | skip hstep _ ih => exact counts_step hstep ▸ ih
  | emit hstep _ ih =>
    obtain ⟨hdepth, hline⟩ := counts_step hstep
    exact ⟨hline, hdepth ▸ ih⟩

/-- Every name that a program binds, at any depth, is declared once its declarations are
collected. -/
theorem mem_declared_of_mem_binds {source : String} {program : Program}
    (h : Program.ofSource source = .ok program) (g : Generator) :
    ∀ phrase, program.phrase.Within phrase → ∀ name ∈ phrase.binds,
      name ∈ ((declare (declaredIn program.body)).run g).2.declared := by
  intro phrase hphrase name hname
  unfold Program.ofSource at h
  split at h
  · cases h
  · rename_i tokens hscan
    split at h
    · cases h
    · rename_i read hread
      cases h
      have hcovered : (Phrase.body false program.body).Covered _ :=
        covered_body (Program.statement_of_ofTokens coveredLaw rfl hread (fun _ _ => trivial)
          (Scanner.linesAt_tokens hscan))
      exact List.mem_append_left g.declared (hcovered phrase hphrase hname)

/-- Names of all sorts, the deepest in the branches of values. -/
def deepNames : String :=
  "type T\n    int k = 0\n" ++
  "f(x) =>\n    y = if x\n        [z, w] = f(x)\n        z\n    else\n        0\n" ++
  "t = switch f(1)\n    2 =>\n        for [i, v] in f(3)\n" ++
  "            for j = i to v\n                u = j\n        4\n"

theorem deepNames_declares : ∃ program, Program.ofSource deepNames = .ok program ∧
    (["T", "f", "x", "y", "z", "w", "t", "i", "v", "j", "u"].all fun name =>
      ((declare (declaredIn program.body)).run .initial).2.declared.contains name) = true ∧
    ∀ phrase, program.phrase.Within phrase → ∀ name ∈ phrase.binds,
      name ∈ ((declare (declaredIn program.body)).run .initial).2.declared := by
  obtain ⟨program, h, hcheck⟩ := eq_ok_of_any (x := Program.ofSource deepNames)
    (p := fun program => ["T", "f", "x", "y", "z", "w", "t", "i", "v", "j", "u"].all fun name =>
      ((declare (declaredIn program.body)).run .initial).2.declared.contains name)
        (by decide +kernel)
  exact ⟨program, h, hcheck, mem_declared_of_mem_binds h .initial⟩

end IndicatorCompiler.Pine
