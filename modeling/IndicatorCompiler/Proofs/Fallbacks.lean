import IndicatorCompiler.Proofs.LiftedValues

/-!
# Fallbacks

An `if` without `else` is worth `NaN` if no test holds, and a `switch` without a default is worth
`undefined` if no case matches.  So they are lowered wherever they are values: as texts, as
functions called on the spot and as chains of `if`.  An `if` statement at the end of a body is
different, since it is handed the fallback of the value that the body belongs to.  In an `if` that
is the same; a `switch` must not have such a body.
-/

namespace IndicatorCompiler.Pine

/-! ## Values with fallbacks of their own -/

/-- How `if` as a value ends. -/
def ifWorth (branches : List Branch) (last : Option (List Stmt)) : Worth :=
  .choices (branchWorths true branches) (last.elim .na (bodyWorth true .na))

/-- How `switch` as a value ends. -/
def switchWorth (cases : List Case) : Worth := .switch (·.body) (caseWorths true cases)

/-- A choice that is used as a value, and how it ends. -/
inductive ChoiceWorth : Expr → Worth → Prop
  | ifValue (first : Branch) (more : List Branch) (last : Option (List Stmt)) :
    ChoiceWorth (ifValue (first :: more) last) (ifWorth (first :: more) last)
  | switchValue (discriminant : Option Expr) (cases : List Case) :
    ChoiceWorth (switchValue discriminant cases) (switchWorth cases)

mutual
/-- No body of a `switch` on the way to a value ends in an `if` statement without `else`. -/
def Expr.closed : Expr → Bool
  | .ternary _ consequent alternate => consequent.closed && alternate.closed
  | .conditional branches last _ =>
    branchesClosed branches && (match last with
        | none => true
        | some body => bodyClosed false body)
  | .switch _ cases _ => casesClosed cases
  | _ => true

/-- So it is with the branches of an `if`. -/
def branchesClosed : List Branch → Bool
  | [] => true
  | ⟨_, body⟩ :: rest => bodyClosed false body && branchesClosed rest

/-- So it is with the cases of a `switch`. -/
def casesClosed : List Case → Bool
  | [] => true
  | ⟨_, body⟩ :: rest => bodyClosed true body && casesClosed rest

/-- So it is with the last statement of a body, which may be that of a `switch`. -/
def bodyClosed (inSwitch : Bool) : List Stmt → Bool
  | [] => true
  | [⟨kind, _⟩] => kind.closed inSwitch
  | _ :: next :: rest => bodyClosed inSwitch (next :: rest)

/-- The last statement of a body is closed. -/
def StmtKind.closed (inSwitch : Bool) : StmtKind → Bool
  | .expr value => value.closed
  | .ifElse _ body otherwise =>
    bodyClosed inSwitch body && (match otherwise with
        | [] => !inSwitch
        | stmt :: rest => bodyClosed inSwitch (stmt :: rest))
  | _ => true
end

/-- Several statements are not one expression. -/
theorem valueWorth_cons_cons (own : Bool) (first next : Stmt) (rest : List Stmt) :
    valueWorth own (first :: next :: rest) = .undefined := by
  obtain ⟨kind, _⟩ := first
  obtain ⟨_, _⟩ := next
  cases kind <;> rfl

mutual
/-- In a closed value, it does not matter whose fallback an `if` statement has. -/
theorem worth_of_closed : (x : Expr) → x.closed = true → x.worth true = x.worth false
  | .ternary _ consequent alternate, h => by
    rw [Expr.closed, Bool.and_eq_true] at h
    rw [Expr.worth, Expr.worth, worth_of_closed consequent h.1, worth_of_closed alternate h.2]
  | .conditional branches none _, h => by
    rw [Expr.closed, Bool.and_eq_true] at h
    rw [Expr.worth, Expr.worth, branchWorths_of_closed branches h.1]
  | .conditional branches (some body) _, h => by
    rw [Expr.closed, Bool.and_eq_true] at h
    simp only [Expr.worth, branchWorths_of_closed branches h.1,
      bodyWorth_of_closed body h.2 .na .na (fun _ => rfl)]
  | .switch _ cases _, h => by
    rw [Expr.closed] at h
    rw [Expr.worth, Expr.worth, caseWorths_of_closed cases h]
  | .ident _, _ | .int _, _ | .float _, _ | .str _, _ | .color _, _ | .bool _, _ | .na, _
  | .binary _ _ _, _ | .unary _ _, _ | .call _ _ _, _ | .member _ _, _ | .history _ _, _
  | .tuple _, _ => rfl

theorem branchWorths_of_closed : (branches : List Branch) → branchesClosed branches = true →
    branchWorths true branches = branchWorths false branches
  | [], _ => rfl
  | ⟨_, body⟩ :: rest, h => by
    rw [branchesClosed, Bool.and_eq_true] at h
    rw [branchWorths, branchWorths, bodyWorth_of_closed body h.1 .na .na (fun _ => rfl),
      branchWorths_of_closed rest h.2]

theorem caseWorths_of_closed : (cases : List Case) → casesClosed cases = true →
    caseWorths true cases = caseWorths false cases
  | [], _ => rfl
  | ⟨_, body⟩ :: rest, h => by
    rw [casesClosed, Bool.and_eq_true] at h
    rw [caseWorths, caseWorths, valueWorth_of_closed body h.1,
      bodyWorth_of_closed body h.1 .undefined .undefined (fun h => nomatch h),
      caseWorths_of_closed rest h.2]

theorem valueWorth_of_closed : (body : List Stmt) → bodyClosed true body = true →
    valueWorth true body = valueWorth false body
  | [⟨.expr value, _⟩], h => worth_of_closed value h
  | [⟨.varDecl _ _ _ _, _⟩], _ | [⟨.reassign _ _ _, _⟩], _ | [⟨.function _ _ _ _ _, _⟩], _
  | [⟨.typeDecl _ _ _, _⟩], _ | [⟨.ifElse _ _ _, _⟩], _ | [⟨.forRange _ _ _ _ _, _⟩], _
  | [⟨.forIn _ _ _, _⟩], _ | [⟨.whileLoop _ _, _⟩], _ | [⟨.ret _, _⟩], _ | [⟨.breakLoop, _⟩], _
  | [⟨.continueLoop, _⟩], _ => rfl
  | [], _ => rfl
  | ⟨_, _⟩ :: ⟨_, _⟩ :: _, _ => by rw [valueWorth_cons_cons, valueWorth_cons_cons]

theorem bodyWorth_of_closed {inSwitch} : (body : List Stmt) → bodyClosed inSwitch body = true →
    (unused missing : Worth) → (inSwitch = false → missing = .na) →
    bodyWorth true unused body = bodyWorth false missing body
  | [], _, _, _, _ => rfl
  | [⟨kind, _⟩], h, unused, missing, hmissing => stmtWorth_of_closed kind h unused missing hmissing
  | ⟨_, _⟩ :: ⟨_, _⟩ :: rest, h, unused, missing, hmissing =>
    bodyWorth_of_closed (_ :: rest) h unused missing hmissing

theorem stmtWorth_of_closed {inSwitch} : (kind : StmtKind) → kind.closed inSwitch = true →
    (unused missing : Worth) → (inSwitch = false → missing = .na) →
    kind.worth true unused = kind.worth false missing
  | .expr value, h, _, _, _ => worth_of_closed value h
  | .ifElse _ body [], h, unused, missing, hmissing => by
    rw [StmtKind.closed, Bool.and_eq_true] at h
    obtain rfl := hmissing (by simpa using h.2)
    exact congrArg (Worth.choice · .na) (bodyWorth_of_closed body h.1 .na .na hmissing)
  | .ifElse _ body (stmt :: rest), h, unused, missing, hmissing => by
    rw [StmtKind.closed, Bool.and_eq_true] at h
    exact congrArg₂ Worth.choice (bodyWorth_of_closed body h.1 .na missing hmissing)
      (bodyWorth_of_closed (stmt :: rest) h.2 .na missing hmissing)
  | .varDecl _ _ _ _, _, _, _, _ | .reassign _ _ _, _, _, _, _ | .function _ _ _ _ _, _, _, _, _
  | .typeDecl _ _ _, _, _, _, _ | .forRange _ _ _ _ _, _, _, _, _ | .forIn _ _ _, _, _, _, _
  | .whileLoop _ _, _, _, _, _ | .ret _, _, _, _, _ | .breakLoop, _, _, _, _
  | .continueLoop, _, _, _, _ => rfl
end

/-! ## Collapsed choices -/

/-- A chain of ternaries ends as the `if` that it stands for. -/
theorem worth_ternaryChain (own : Bool) {branches last}
    (hbranches : ∀ branch ∈ branches, bodyNeedsLifting branch.body = false)
    (hlast : ∀ body ∈ last, bodyNeedsLifting body = false) :
    (ternaryChain branches last).worth own =
      .choices (branchWorths own branches) (last.elim .na (bodyWorth own .na)) := by
  induction branches with
  | nil =>
    cases last with
    | none => rfl
    | some body =>
      obtain ⟨value, line, rfl⟩ := exists_of_not_needsLifting (hlast body rfl)
      rfl
  | cons branch branches ih =>
    obtain ⟨test, body⟩ := branch
    obtain ⟨hbranch, hrest⟩ := List.forall_mem_cons.mp hbranches
    obtain ⟨value, line, rfl⟩ := exists_of_not_needsLifting hbranch
    exact congrArg (Worth.choice (value.worth own)) (ih hrest)

/-- Whether it is collapsed or not, an `if` ends in the same way. -/
theorem worth_ifValue (own : Bool) (branches : List Branch) (last : Option (List Stmt)) :
    (ifValue branches last).worth own =
      .choices (branchWorths own branches) (last.elim .na (bodyWorth own .na)) := by
  unfold ifValue
  split
  · cases last <;> rfl
  · rename_i hlifts
    simp only [Bool.or_eq_true, not_or, Bool.not_eq_true, List.any_eq_false] at hlifts
    refine worth_ternaryChain own hlifts.1 fun body hbody => ?_
    rw [Option.mem_def.mp hbody] at hlifts
    exact hlifts.2

theorem switch_congr {part part' : CaseWorth → Worth} {cases}
    (h : ∀ case ∈ cases, part case = part' case) :
    Worth.switch part cases = .switch part' cases := by
  have htested : (cases.filter (·.tested)).map part = (cases.filter (·.tested)).map part' :=
    List.map_congr_left fun case hcase => h case (List.mem_of_mem_filter hcase)
  rw [Worth.switch, Worth.switch, htested]
  cases hlast : (cases.filter (!·.tested)).getLast? with
  | none => rfl
  | some case =>
    exact congrArg (Worth.choices _) (h case (List.mem_of_mem_filter (List.mem_of_getLast? hlast)))

/-- As one expression and as a body, a case that need not be lifted ends in the same way. -/
theorem caseWorths_value (own : Bool) {cases}
    (h : ∀ case ∈ cases, bodyNeedsLifting case.body = false) :
    ∀ case ∈ caseWorths own cases, case.value = case.body := by
  induction cases with
  | nil => simp [caseWorths]
  | cons case cases ih =>
    obtain ⟨test, body⟩ := case
    obtain ⟨hcase, hrest⟩ := List.forall_mem_cons.mp h
    obtain ⟨value, line, rfl⟩ := exists_of_not_needsLifting hcase
    exact List.forall_mem_cons.mpr ⟨rfl, ih hrest⟩

/-- Whether it is collapsed or not, a `switch` ends in the same way. -/
theorem worth_switchValue (own : Bool) (discriminant : Option Expr) (cases : List Case) :
    (switchValue discriminant cases).worth own = .switch (·.body) (caseWorths own cases) := by
  rw [switchValue, Expr.worth]
  cases hlifts : cases.any fun case => bodyNeedsLifting case.body with
  | true => rfl
  | false =>
    rw [List.any_eq_false] at hlifts
    exact switch_congr (caseWorths_value own fun case hcase => by simpa using hlifts case hcase)

theorem ChoiceWorth.worth_eq {x w} (h : ChoiceWorth x w) :
    x.worth true = w ∧ x.lifted.worth true = w := by
  cases h with
  | ifValue first more last =>
    have hlifted : (Pine.ifValue (first :: more) last).lifted =
        Pine.ifValue (first :: more) last := by
      unfold Pine.ifValue
      split <;> rfl
    rw [hlifted]
    exact ⟨worth_ifValue true _ last, worth_ifValue true _ last⟩
  | switchValue discriminant cases => exact ⟨worth_switchValue true discriminant cases, rfl⟩

end IndicatorCompiler.Pine

namespace IndicatorCompiler.Lowering

open Pine

/-! ## Emitted fallbacks -/

theorem closed_lifted {x : Expr} (h : x.closed = true) : x.lifted.closed = true := by
  cases x <;> exact h

/-- **Fallbacks are those of the construct that did not match.**  An `if` or a `switch` that is used
as a value is written, and delivered to a sink, so that it ends in `NaN` where an `if` has no
`else`, in `undefined` where a `switch` has no default, and in the values of its bodies everywhere
else, at every depth.  No body of a `switch` may end in an `if` statement without `else`. -/
theorem choice_endsIn {x : Expr} {w : Worth} (h : ChoiceWorth x w) (hclosed : x.closed = true)
    (g : Generator) :
    InText w ((lowerExpr x).text.run g).1 ∧ ∀ sink, sink ≠ .discard →
        ∃ new, (((lowerExpr x).into sink).run g).2.output = g.output ++ new ∧
          InStmts sink w new := by
  have hfollows : (lowerExpr x).Follows (.ofState g) x := follows_expr x False.elim
  have htext : w = x.worth false := by rw [← worth_of_closed x hclosed, h.worth_eq.1]
  have hlifted : w = x.lifted.worth false := by
    rw [← worth_of_closed x.lifted (closed_lifted hclosed), h.worth_eq.2]
  obtain ⟨-, -, -, -, r, hr, hwritten⟩ := hfollows.written Strength.lowest (Scene.holds_ofState g)
  refine ⟨?_, fun sink hsink => ?_⟩
  · rw [Lowered.text, hr, within_lowest, htext]
    exact hwritten.ends.2
  · obtain ⟨new, houtput, -, hnew⟩ := hfollows.into sink (Scene.holds_ofState g)
    exact ⟨new, houtput, hlifted ▸ hnew.ends hsink⟩

/-- An `if` without `else` around a `switch` without a default, whose case ends in an `if` with all
its parts. -/
def switchInIf : Expr :=
  ifValue [⟨.ident "c", [⟨.expr (switchValue (some (.ident "m")) [⟨some (.int 1),
    [⟨.ifElse (.ident "b") [⟨.expr (.int 1), 0⟩]
      [⟨.ifElse (.ident "d") [⟨.expr (.int 2), 0⟩] [⟨.expr (.int 3), 0⟩], 0⟩], 0⟩]⟩]), 0⟩]⟩] none

/-- The ends of `switchInIf`. -/
def switchInIfWorth : Worth :=
  .choice (.choice (.choice .value (.choice .value .value)) .undefined) .na

theorem switchInIf_endsIn : ChoiceWorth switchInIf switchInIfWorth ∧ switchInIf.closed = true ∧
    InText switchInIfWorth ((lowerExpr switchInIf).text.run .initial).1 ∧
    ∀ sink, sink ≠ .discard → ∃ new, (((lowerExpr switchInIf).into sink).run .initial).2.output =
        [] ++ new ∧ InStmts sink switchInIfWorth new := by
  have hworth : ChoiceWorth switchInIf switchInIfWorth := .ifValue _ [] none
  exact ⟨hworth, rfl, choice_endsIn hworth rfl .initial⟩

/-! ## A fallback of what stands around -/

theorem InStmts.arms {sink w stmts} (h : InStmts sink w stmts) {first more last}
    (hstmts : stmts = [.chain first more (some last)]) : InArms sink w (first :: more) last := by
  cases h with
  | value hsink before h => cases sink <;> simp_all [Sink.delivered, List.append_eq_singleton_iff]
  | chain before h =>
    obtain ⟨-, hchain⟩ : before = [] ∧ _ := by simpa [List.append_eq_singleton_iff] using hstmts
    obtain ⟨rfl, rfl, rfl⟩ := hchain
    exact h

theorem InStmts.text {name text w stmts} (h : InStmts (.assign name) w stmts)
    (hstmts : stmts = [.assign name text]) : InText w text := by
  cases h with
  | value hsink before h =>
    obtain ⟨-, rfl⟩ : before = [] ∧ _ = text := by
      simpa [Sink.delivered, List.append_eq_singleton_iff] using hstmts
    exact h
  | chain before h => simp [List.append_eq_singleton_iff] at hstmts

theorem not_inText_undefined {w text} (h : InText w text) (hw : w = .na) : text ≠ "undefined" := by
  cases h with
  | na => decide
  | called level h =>
    intro htext
    have hhead := congrArg (fun t => t.toList.head?) htext
    simp [calledText] at hhead
  | value | undefined | choice => cases hw

/-- A `switch` whose case ends in an `if` statement without `else`. -/
def ifInSwitch : Expr :=
  switchValue none [ ⟨some (.ident "a"), [⟨.ifElse (.ident "b") [⟨.expr (.int 1), 3⟩] [], 3⟩]⟩,
    ⟨none, [⟨.expr (.int 2), 5⟩]⟩]

/-- The `if` statement at the end of a case is worth `undefined`, as if it were a `switch`. -/
theorem ifInSwitch_borrows : ChoiceWorth ifInSwitch (.choice (.choice .value .na) .value) ∧
    ∃ new, (((lowerExpr ifInSwitch).into (.assign "x")).run .initial).2.output = [] ++ new ∧
      ¬ InStmts (.assign "x") (.choice (.choice .value .na) .value) new := by
  refine ⟨.switchValue none _, [.chain ⟨"a", [.chain ⟨"b", [.assign "x" "1"]⟩ []
    (some [.assign "x" "undefined"])]⟩ [] (some [.assign "x" "2"])], rfl, fun h => ?_⟩
  obtain - | ⟨hyes, -⟩ := h.arms rfl
  obtain - | ⟨-, hno⟩ := hyes.arms rfl
  obtain hlast | - := hno
  exact not_inText_undefined (hlast.text rfl) rfl rfl

end IndicatorCompiler.Lowering
