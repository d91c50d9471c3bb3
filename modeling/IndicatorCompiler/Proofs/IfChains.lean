import IndicatorCompiler.Proofs.LiftedValues

/-!
# Chains of `if`

A chain of `if` and `else if` stands as a nested statement, as a list of branches, as the arms of a
lowered statement and, if its bodies are single expressions, as ternaries.  All of them choose the
same body.

Tests are asked in any monad: the same test may answer differently in two places, and the views
agree on which tests are asked, and in which order.
-/

namespace IndicatorCompiler.Pine

open Lowering

/-! ## Flattening -/

/-- A body that is one expression is all of the `else` part. -/
theorem elseChain_of_not_needsLifting {body} (h : bodyNeedsLifting body = false) :
    elseChain body = ([], some body) := by
  obtain ⟨value, line, rfl⟩ := exists_of_not_needsLifting h
  rfl

theorem isSome_singleExpr? {body} (h : bodyNeedsLifting body = false) :
    (singleExpr? body).isSome := by
  obtain ⟨value, line, rfl⟩ := exists_of_not_needsLifting h
  rfl

/-- The `else` part of a nested `if` adds all branches but the first. -/
theorem nestedIf_eq_ifElse (line : Nat) (first : Branch) (more : List Branch) (last : List Stmt) :
    ∃ otherwise, nestedIf line first more last = .ifElse first.test first.body otherwise ∧
      elseChain otherwise = (more ++ (elseChain last).1, (elseChain last).2) := by
  induction more generalizing first with
  | nil => exact ⟨last, rfl, rfl⟩
  | cons next rest ih =>
    obtain ⟨otherwise, hnested, helse⟩ := ih next
    refine ⟨[⟨nestedIf line next rest last, line⟩], rfl, ?_⟩
    rw [hnested, elseChain, ifChain_eq, helse]
    cases next
    rfl

section

variable {m : Type → Type} [Monad m]

/-! ## Choosing a body -/

/-- The body of the first branch whose test holds, or else the last body. -/
def firstMatch (holds : Expr → m Bool) (last : Option (List Stmt)) :
    List Branch → m (Option (List Stmt))
  | [] => return last
  | branch :: rest => do
    if ← holds branch.test then return some branch.body
    else firstMatch holds last rest

/-- The body that a nested `if` leads to: its own if its test holds, else that of the `if` that
stands alone in its `else` part, or all of that part. -/
def nestedMatch (holds : Expr → m Bool) (test : Expr) (body : List Stmt) :
    List Stmt → m (Option (List Stmt))
  | [⟨.ifElse test' body' otherwise, _⟩] => do
    if ← holds test then return some body
    else nestedMatch holds test' body' otherwise
  | otherwise => do
    if ← holds test then return some body
    else if otherwise.isEmpty then return none
    else return some otherwise

/-- A nested `if` leads to the first match of its branches. -/
theorem nestedMatch_eq_firstMatch (holds : Expr → m Bool) (test : Expr)
    (body otherwise : List Stmt) : nestedMatch holds test body otherwise =
      firstMatch holds (ifChain test body otherwise).2 (ifChain test body otherwise).1 := by
  fun_induction ifChain test body otherwise with
  | case1 test body test' body' otherwise line branches last hchain ih =>
    rw [hchain] at ih
    rw [nestedMatch, firstMatch, ih]
  | case2 test body => rfl
  | case3 test body otherwise hif hnil =>
    rw [nestedMatch.eq_2 _ _ _ _ hif]
    cases otherwise with
    | nil => exact absurd rfl hnil
    | cons stmt rest => rfl

/-! ## Values -/

variable {V : Type}

/-- A way to evaluate expressions: a ternary asks its test and evaluates one side only. -/
structure Evaluator (m : Type → Type) [Monad m] (V : Type) where
  holds : Expr → m Bool
  eval : Expr → m V
  eval_ternary (test consequent alternate : Expr) : eval (.ternary test consequent alternate) =
      (do if ← holds test then eval consequent else eval alternate)

/-- What a chain is worth once a body is chosen: the expression that the body is, or `na` without
one. -/
def chosenExpr (body : Option (List Stmt)) : Expr := (body.bind singleExpr?).getD .na

/-- Ternaries evaluate to the expression of the first match. -/
theorem eval_ternaryChain [LawfulMonad m] (ev : Evaluator m V) (branches : List Branch)
    (last : Option (List Stmt)) :
    ev.eval (ternaryChain branches last) =
      (do ev.eval (chosenExpr (← firstMatch ev.holds last branches))) := by
  induction branches with
  | nil => rw [firstMatch, pure_bind]; rfl
  | cons branch rest ih =>
    have hcons : ternaryChain (branch :: rest) last =
        .ternary branch.test (chosenExpr (some branch.body)) (ternaryChain rest last) := rfl
    rw [hcons, ev.eval_ternary, firstMatch, bind_assoc]
    congr
    funext holds
    cases holds with
    | true => simp
    | false => simpa using ih

/-- As a value, a chain whose bodies need not be lifted is worth the expression of the first
match. -/
theorem eval_ifValue [LawfulMonad m] (ev : Evaluator m V) {branches last}
    (hbranches : ∀ branch ∈ branches, bodyNeedsLifting branch.body = false)
    (hlast : ∀ body ∈ last, bodyNeedsLifting body = false) :
    ev.eval (ifValue branches last) =
      (do ev.eval (chosenExpr (← firstMatch ev.holds last branches))) := by
  have hlifts : (branches.any (fun branch => bodyNeedsLifting branch.body) ||
      last.any bodyNeedsLifting) = false := by
    rw [Bool.or_eq_false_iff, List.any_eq_false, Option.any_eq_false]
    exact ⟨fun branch hmem => by simp [hbranches branch hmem],
      fun body hmem => by simp [hlast body hmem]⟩
  rw [ifValue, hlifts, if_neg Bool.false_ne_true, eval_ternaryChain]

/-! ## The views of a chain -/

/-- An `if` that is nested from branches and an `else` part has these branches in front of what the
`else` part adds, and its lowered form has the same arms.  Going down the nested statement leads to
the body of the first of them whose test holds.  If no body has to be lifted then every body is one
expression, and as a value the chain evaluates to that of the same body, or to `na` if the statement
leads to none. -/
theorem nestedIf_choice [LawfulMonad m] (ev : Evaluator m V) (line : Nat) (first : Branch)
    (more : List Branch) (last : Option (List Stmt)) :
    ∃ test body otherwise, nestedIf line first more (last.getD []) = .ifElse test body otherwise ∧
      ifChain test body otherwise =
        (first :: more ++ (elseChain (last.getD [])).1, (elseChain (last.getD [])).2) ∧
      (lowerStmt (nestedIf line first more (last.getD []))).chain? =
        some (loweredChain (ifChain test body otherwise)) ∧
      nestedMatch ev.holds test body otherwise =
        firstMatch ev.holds (ifChain test body otherwise).2 (ifChain test body otherwise).1 ∧
      ((∀ branch ∈ first :: more, bodyNeedsLifting branch.body = false) →
        (∀ body ∈ last, bodyNeedsLifting body = false) →
        (∀ branch ∈ first :: more, (singleExpr? branch.body).isSome) ∧
        (∀ body ∈ last, (singleExpr? body).isSome) ∧
        ev.eval (ifValue (first :: more) last) =
          (do ev.eval (chosenExpr (← nestedMatch ev.holds test body otherwise)))) := by
  obtain ⟨otherwise, hnested, helse⟩ := nestedIf_eq_ifElse line first more (last.getD [])
  have hchain : ifChain first.test first.body otherwise =
      (first :: more ++ (elseChain (last.getD [])).1, (elseChain (last.getD [])).2) := by
    rw [ifChain_eq, helse]
    cases first
    rfl
  refine ⟨first.test, first.body, otherwise, hnested, hchain, ?_,
    nestedMatch_eq_firstMatch _ _ _ _, ?_⟩
  · rw [hnested, chain?_ifElse]
  · intro hbranches hlast
    refine ⟨fun branch hmem => isSome_singleExpr? (hbranches branch hmem),
      fun body hmem => isSome_singleExpr? (hlast body hmem), ?_⟩
    rw [nestedMatch_eq_firstMatch, hchain, eval_ifValue ev hbranches hlast]
    cases last with
    | none => rw [Option.getD_none, elseChain, List.append_nil]
    | some body =>
      rw [Option.getD_some, elseChain_of_not_needsLifting (hlast body rfl), List.append_nil]

end

/-- The truth values of tests, one after the other. -/
def nextTruth : StateM (List Bool) Bool := modifyGet fun truths => (truths.headD false, truths.tail)

/-- The expression that ternaries lead to. -/
def ternaryResult : Expr → StateM (List Bool) Expr
  | .ternary _ consequent alternate => do
    if ← nextTruth then ternaryResult consequent else ternaryResult alternate
  | value => return value

/-- Tests answered from a list. -/
def answered : Evaluator (StateM (List Bool)) Expr :=
  ⟨fun _ => nextTruth, ternaryResult, fun _ _ _ => rfl⟩

/-- The first branch of a chain. -/
def firstUp : Branch := ⟨.ident "up", [⟨.expr (.int 1), 2⟩]⟩

/-- More branches, the first of them with the same test. -/
def moreUp : List Branch :=
  [⟨.ident "up", [⟨.expr (.int 2), 4⟩]⟩, ⟨.ident "flat", [⟨.expr (.int 3), 6⟩]⟩]

/-- If a test fails at first and holds when it is asked again, then the second body is chosen. -/
theorem nestedIf_choice_repeated : ∃ test body otherwise,
      nestedIf 1 firstUp moreUp [] = .ifElse test body otherwise ∧
      answered.eval (ifValue (firstUp :: moreUp) none) =
        (do answered.eval (chosenExpr (← nestedMatch answered.holds test body otherwise))) ∧
      (answered.eval (ifValue (firstUp :: moreUp) none)).run [false, true] = (.int 2, []) := by
  obtain ⟨test, body, otherwise, hnested, -, -, -, hvalue⟩ :=
    nestedIf_choice answered 1 firstUp moreUp none
  have hbranches : ∀ branch ∈ firstUp :: moreUp, bodyNeedsLifting branch.body = false := by
    simp [firstUp, moreUp, bodyNeedsLifting, Expr.needsLifting]
  exact ⟨test, body, otherwise, hnested, (hvalue hbranches nofun).2.2, rfl⟩

end IndicatorCompiler.Pine
