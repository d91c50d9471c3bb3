import IndicatorCompiler.Proofs.IndicatorOutput
import IndicatorCompiler.Proofs.LoweredPhrases

/-!
# Lowered parts

Lowering goes through lists of parts one by one.  A nested `if` is lowered with the arms of its flat
chain, a `switch` with those of its cases that have a test, and a body of one expression as that
expression.
-/

namespace IndicatorCompiler.Pine

/-- The branches and the last `else` that an `else` part adds to its chain. -/
def elseChain : List Stmt → List Branch × Option (List Stmt)
  | [⟨.ifElse test body otherwise, _⟩] => ifChain test body otherwise
  | [] => ([], none)
  | otherwise => ([], some otherwise)

theorem ifChain_eq (test : Expr) (body otherwise : List Stmt) : ifChain test body otherwise =
      (⟨test, body⟩ :: (elseChain otherwise).1, (elseChain otherwise).2) := by
  fun_cases ifChain test body otherwise with
  | case1 test' body' otherwise line branches last hchain => simp only [elseChain, hchain]
  | case2 => rfl
  | case3 otherwise hif hnil => rw [elseChain.eq_3 _ hif hnil]

/-- The cases of a `switch` that have a test. -/
def testedBranches (cases : List Case) : List Branch :=
  cases.filterMap fun case => case.test.map (⟨·, case.body⟩)

/-- The body of the default; of several the last one counts. -/
def defaultBody (cases : List Case) : Option (List Stmt) :=
  (cases.filter (·.test.isNone)).getLast?.map (·.body)

/-- What is taken of the cases of a `switch` is taken of its branches and its default. -/
theorem cases_eq_branches {γ δ : Type} {m : Case → γ} (tested : γ → Bool) (part : γ → δ)
    {f : List Stmt → δ} (htested : ∀ case, tested (m case) = case.test.isSome)
    (hpart : ∀ case, part (m case) = f case.body) (cases : List Case) :
    ((cases.map m).filter tested).map part =
    (testedBranches cases).map (fun branch => f branch.body) ∧
      ∀ d, ((cases.map m).filter (!tested ·)).getLast?.elim d part =
      (defaultBody cases).elim d f := by
  rw [List.filter_map, List.filter_map, List.map_map, List.getLast?_map, defaultBody]
  simp only [Function.comp_def, htested, hpart, Option.not_isSome]
  refine ⟨?_, fun d => ?_⟩
  · induction cases with
    | nil => rfl
    | cons case cases ih =>
      obtain ⟨test, body⟩ := case
      cases test with
      | none => exact ih
      | some test => exact congrArg (f body :: ·) ih
  · cases (cases.filter (·.test.isNone)).getLast? with
    | none => rfl
    | some case => exact hpart case

/-- The expression, to be lifted if it is a `switch`. -/
def Expr.lifted : Expr → Expr
  | .switch discriminant cases _ => .switch discriminant cases true
  | value => value

theorem Expr.lifted_of_needsLifting {x : Expr} (h : x.needsLifting = true) : x.lifted = x := by
  cases x with
  | switch discriminant cases lifts => rw [show lifts = true from h]; rfl
  | _ => rfl

end IndicatorCompiler.Pine

namespace IndicatorCompiler.Lowering

open Pine

/-! ## Lists of parts -/

theorem delivery_nil (sink : Sink) (fallback : String) :
    delivery [] sink fallback = sink.deliver fallback := by
  cases sink <;> rfl

/-- A statement for its effect, or for its value. -/
def LoweredStmt.run (stmt : LoweredStmt) (sink : Sink) (fallback : String) : Gen Unit :=
  if sink = .discard then stmt.effect else stmt.deliver sink fallback

theorem delivery_singleton (stmt : LoweredStmt) (sink : Sink) (fallback : String) :
    delivery [stmt] sink fallback = stmt.run sink fallback := by
  by_cases hsink : sink = .discard
  · simp only [delivery, LoweredStmt.run, if_pos hsink]
    exact bind_pure_unit
  · simp [delivery, LoweredStmt.run, hsink]

theorem delivery_cons_cons (first second : LoweredStmt) (more : List LoweredStmt) (sink : Sink)
    (fallback : String) : delivery (first :: second :: more) sink fallback =
      (do first.effect; delivery (second :: more) sink fallback) := by
  by_cases hsink : sink = .discard
  · simp only [delivery, if_pos hsink]
    rfl
  · simp [delivery, hsink, List.getLast?_cons]

theorem singleValue?_lowerStmts : (body : List Stmt) →
    singleValue? (lowerStmts body) = (singleExpr? body).map lowerExpr
  | [] => rfl
  | [⟨kind, _⟩] | ⟨kind, _⟩ :: ⟨_, _⟩ :: _ => by cases kind <;> rfl

/-! ## Cases -/

/-- A case lowered. -/
def loweredCase (case : Case) : LoweredCase :=
  ⟨lowerExpr? case.test, delivery (lowerStmts case.body), singleValue? (lowerStmts case.body)⟩

theorem lowerCases_eq_map : (cases : List Case) → lowerCases cases = cases.map loweredCase
  | [] => rfl
  | ⟨_, _⟩ :: rest => congrArg (_ :: ·) (lowerCases_eq_map rest)

theorem isNone_loweredCase (case : Case) : (loweredCase case).test.isNone = case.test.isNone := by
  obtain ⟨test, body⟩ := case
  cases test <;> rfl

theorem defaultCase?_lowerCases (cases : List Case) : defaultCase? (lowerCases cases) =
    (cases.filter (·.test.isNone)).getLast?.map loweredCase := by
  rw [defaultCase?, lowerCases_eq_map, List.filter_map, List.getLast?_map]
  simp only [Function.comp_def, isNone_loweredCase]

/-! ## Chains -/

/-- Only an `if` has arms. -/
theorem chain?_eq_none {kind}
    (h : ∀ test body otherwise, kind = .ifElse test body otherwise → False) :
    (lowerStmt kind).chain? = none := by
  cases kind with
  | ifElse test body otherwise => exact (h test body otherwise rfl).elim
  | _ => rfl

/-- The branches and the last `else` of a chain, lowered. -/
def loweredChain (chain : List Branch × Option (List Stmt)) : LoweredChain :=
  ⟨lowerBranches chain.1, chain.2.map fun body => delivery (lowerStmts body)⟩

theorem lowerStmt_ifElse (test : Expr) (body otherwise : List Stmt) :
    lowerStmt (.ifElse test body otherwise) =
      lowerIf (lowerExpr test) (lowerStmts body) (lowerStmts otherwise) := rfl

theorem chain?_ifElse (test : Expr) (body otherwise : List Stmt) :
    (lowerStmt (.ifElse test body otherwise)).chain? =
      some (loweredChain (ifChain test body otherwise)) := by
  fun_induction ifChain test body otherwise with
  | case1 test body test' body' otherwise line branches last hchain ih =>
    rw [hchain] at ih
    rw [lowerStmt_ifElse, lowerStmts, lowerStmts, lowerIf]
    simp only [ih]
    rfl
  | case2 test body => rfl
  | case3 test body otherwise hif hnil =>
    cases otherwise with
    | nil => exact (hnil rfl).elim
    | cons first more =>
      obtain ⟨kind, line⟩ := first
      cases more with
      | nil =>
        have hnone : (lowerStmt kind).chain? = none := by
          refine chain?_eq_none fun test' body' otherwise hkind => ?_
          exact hif test' body' otherwise line (by rw [hkind])
        rw [lowerStmt_ifElse, lowerStmts, lowerStmts, lowerIf]
        simp only [hnone]
        rfl
      | cons second more =>
        obtain ⟨_, _⟩ := second
        rw [lowerStmt_ifElse, lowerStmts, lowerStmts]
        rfl

theorem run_ifElse (test : Expr) (body otherwise : List Stmt) (sink : Sink) (fallback : String) :
    (lowerStmt (.ifElse test body otherwise)).run sink fallback =
      (loweredChain (ifChain test body otherwise)).deliver sink
        (if sink = .discard then ifFallback else fallback) := by
  have hchain := Option.some.inj (chain?_ifElse test body otherwise)
  rw [← hchain, LoweredStmt.run]
  split
  · rename_i hsink
    rw [hsink]
    rfl
  · rfl

end IndicatorCompiler.Lowering
