import IndicatorCompiler.Proofs.Emission

/-!
# Lifted values

An `if` or a `switch` that is used as a value ends in one of several ways: in the value of a branch,
or in a fallback.  `Worth` is the tree of these ways, and `InText` and `InStmts` say that a text, or
statements that deliver to a sink, have exactly these ends.  Every expression is lowered to its
worth, so a value is delivered on every path, and each fallback is that of the construct that did
not match.
-/

namespace IndicatorCompiler.Pine

/-! ## The ends of a value -/

/-- How a value ends. -/
inductive Worth where
  /-- In whatever an expression or a statement gives. -/
  | value
  /-- In what an `if` is worth if no test holds. -/
  | na
  /-- In what a `switch` is worth if no case matches. -/
  | undefined
  /-- In one way if a test holds, and otherwise in another one. -/
  | choice (yes no : Worth)

/-- Choices one after another. -/
def Worth.choices (arms : List Worth) (last : Worth) : Worth := arms.foldr .choice last

/-- How a case ends: taken as one expression, and taken as a body. -/
structure CaseWorth where
  tested : Bool
  value : Worth
  body : Worth

/-- How a `switch` ends, of whose cases `part` is taken.  Of several defaults the last one
counts. -/
def Worth.switch (part : CaseWorth → Worth) (cases : List CaseWorth) : Worth :=
  .choices ((cases.filter (·.tested)).map part)
  ((cases.filter (!·.tested)).getLast?.elim .undefined part)

mutual
/-- How an expression ends.  If `own` is set, an `if` statement at the end of a body has a fallback
of its own; otherwise it has that of the value which the body belongs to. -/
def Expr.worth (own : Bool) : Expr → Worth
  | .na => .na
  | .ternary _ consequent alternate => .choice (consequent.worth own) (alternate.worth own)
  | .conditional branches last _ =>
    .choices (branchWorths own branches) (match last with
        | none => .na
        | some body => bodyWorth own .na body)
  | .switch _ cases lifts =>
    .switch (fun case => if lifts then case.body else case.value) (caseWorths own cases)
  | _ => .value

/-- How the branches of an `if` end. -/
def branchWorths (own : Bool) : List Branch → List Worth
  | [] => []
  | ⟨_, body⟩ :: rest => bodyWorth own .na body :: branchWorths own rest

/-- How the cases of a `switch` end. -/
def caseWorths (own : Bool) : List Case → List CaseWorth
  | [] => []
  | ⟨test, body⟩ :: rest =>
    ⟨test.isSome, valueWorth own body, bodyWorth own .undefined body⟩ :: caseWorths own rest

/-- How a body ends that is taken as one expression. -/
def valueWorth (own : Bool) : List Stmt → Worth
  | [⟨.expr value, _⟩] => value.worth own
  | _ => .undefined

/-- How a body ends, in a value with the fallback `missing`. -/
def bodyWorth (own : Bool) (missing : Worth) : List Stmt → Worth
  | [] => .value
  | [⟨kind, _⟩] => kind.worth own missing
  | _ :: next :: rest => bodyWorth own missing (next :: rest)

/-- How the last statement of a body ends. -/
def StmtKind.worth (own : Bool) (missing : Worth) : StmtKind → Worth
  | .expr value => value.worth own
  | .ifElse _ body otherwise =>
    let missing := if own then .na else missing
    .choice (bodyWorth own missing body) (match otherwise with
        | [] => missing
        | stmt :: rest => bodyWorth own missing (stmt :: rest))
  | _ => .value
end

/-- A body that need not be lifted is one expression. -/
theorem exists_of_not_needsLifting {body} (h : bodyNeedsLifting body = false) :
    ∃ value line, body = [⟨.expr value, line⟩] := by
  unfold bodyNeedsLifting at h
  split at h
  · exact ⟨_, _, rfl⟩
  · cases h

end IndicatorCompiler.Pine

namespace IndicatorCompiler.Lowering

open Pine
open Text (Rendered)

/-! ## Texts and statements that end in these ways -/

mutual
/-- The text ends as the worth says. -/
inductive InText : Worth → String → Prop
  | value (text : String) : InText .value text
  | na : InText .na "NaN"
  | undefined : InText .undefined "undefined"
  | choice {yes no} (test : String) {y n} (hyes : InText yes y) (hno : InText no n) :
    InText (.choice yes no) (test ++ " ? " ++ y ++ " : " ++ n)
  /-- A function that is called on the spot returns on every path. -/
  | called {w} (level : Nat) {body} (h : InStmts .ret w body) : InText w (calledText level body)

/-- The statements end as the worth says, and deliver to the sink. -/
inductive InStmts : Sink → Worth → List Emitted → Prop
  | value {sink} (hsink : sink ≠ .discard) {w} (before : List Emitted) {text} (h : InText w text) :
    InStmts sink w (before ++ sink.delivered text)
  | chain {sink w} (before : List Emitted) {first more last}
      (h : InArms sink w (first :: more) last) :
    InStmts sink w (before ++ [.chain first more (some last)])

/-- The arms of a chain, and then its last part, end as the worth says. -/
inductive InArms : Sink → Worth → List EmittedArm → List Emitted → Prop
  | last {sink w last} (h : InStmts sink w last) : InArms sink w [] last
  | arm {sink yes no arm more last} (hyes : InStmts sink yes arm.body)
      (hno : InArms sink no more last) : InArms sink (.choice yes no) (arm :: more) last
end

theorem InStmts.behind {sink w stmts} (h : InStmts sink w stmts) (before : List Emitted) :
    InStmts sink w (before ++ stmts) := by
  cases h with
  | value hsink before' h => exact List.append_assoc .. ▸ .value hsink (before ++ before') h
  | chain before' h => exact List.append_assoc .. ▸ .chain (before ++ before') h

theorem within_ternary {r : Rendered} (h : Strength.ternary ≤ r.strength) :
    r.within Strength.ternary = r.text :=
  if_neg (Nat.not_lt.mpr h)

/-! ## Flat chains -/

theorem branchWorths_eq_map (own : Bool) : (branches : List Branch) → branchWorths own branches =
    branches.map fun branch => bodyWorth own .na branch.body
  | [] => rfl
  | ⟨_, _⟩ :: rest => congrArg (_ :: ·) (branchWorths_eq_map own rest)

/-- How a chain ends, in a value with the fallback `missing`. -/
def chainWorth (missing : Worth) (branches : List Branch) (last : Option (List Stmt)) : Worth :=
  .choices (branches.map fun branch => bodyWorth false missing branch.body)
    (last.elim missing (bodyWorth false missing))

/-- An `if` statement ends as its flat chain does. -/
theorem worth_ifElse (missing : Worth) (test : Expr) (body otherwise : List Stmt) :
    (StmtKind.ifElse test body otherwise).worth false missing =
      chainWorth missing (ifChain test body otherwise).1 (ifChain test body otherwise).2 := by
  fun_induction ifChain test body otherwise with
  | case1 test body test' body' otherwise line branches last hchain ih =>
    rw [hchain] at ih
    exact congrArg (Worth.choice _) ih
  | case2 test body => rfl
  | case3 test body otherwise hif hnil =>
    cases otherwise with
    | nil => exact (hnil rfl).elim
    | cons => rfl

theorem caseWorths_eq_map : (cases : List Case) → caseWorths false cases = cases.map fun case =>
    ⟨case.test.isSome, valueWorth false case.body, bodyWorth false .undefined case.body⟩
  | [] => rfl
  | ⟨_, _⟩ :: rest => congrArg (_ :: ·) (caseWorths_eq_map rest)

/-- A `switch` ends as its cases do, of which `part` is taken. -/
theorem worth_switch {part : CaseWorth → Worth} {worth : List Stmt → Worth}
    (h : ∀ tested body, part ⟨tested, valueWorth false body, bodyWorth false .undefined body⟩ =
      worth body)
    (cases : List Case) : Worth.switch part (caseWorths false cases) =
      .choices ((testedBranches cases).map fun branch => worth branch.body)
        ((defaultBody cases).elim .undefined worth) := by
  obtain ⟨hbranches, hdefault⟩ :=
    cases_eq_branches CaseWorth.tested part (fun _ => rfl)
    (fun case => h case.test.isSome case.body) cases
  rw [Worth.switch, caseWorths_eq_map, hbranches, hdefault]

/-- A `switch` that is delivered ends as a chain. -/
theorem worth_lifted (d : Option Expr) (cases : List Case) (lifts : Bool) :
    (Expr.switch d cases lifts).lifted.worth false =
      chainWorth .undefined (testedBranches cases) (defaultBody cases) :=
  worth_switch (fun _ _ => rfl) cases

theorem lifted_of_not_isChoice {x} (h : isChoice x = false) : x.lifted = x := by
  cases x with
  | switch => cases h
  | _ => rfl

theorem valueWorth_eq (own : Bool) : (body : List Stmt) →
    valueWorth own body = (singleExpr? body).elim .undefined (·.worth own)
  | [] => rfl
  | [⟨kind, _⟩] | ⟨kind, _⟩ :: ⟨_, _⟩ :: _ => by cases kind <;> rfl

/-! ## Lowered parts -/

/-- The outcome ends as the part of the tree does that it is made of. -/
def Ends : Outcome → Prop
  | .text x r => Strength.ternary ≤ r.strength ∧ InText (x.worth false) r.text
  | .value body t => InText (valueWorth false body) t
  | .choices branches last t => ∀ w, InText w last →
      InText (.choices (branches.map fun branch => valueWorth false branch.body) w) t
  | .into sink x new => sink ≠ .discard → InStmts sink (x.lifted.worth false) new
  | .chain sink fallback branches last new => sink ≠ .discard → ∀ missing, InText missing fallback →
      InStmts sink (chainWorth missing branches last) new
  | .arms sink fallback branches arms => sink ≠ .discard → ∀ missing, InText missing fallback →
      ∀ w last, InStmts sink w last →
        InArms sink (.choices (branches.map fun branch => bodyWorth false missing branch.body) w)
        arms last
  | .last sink fallback last new => sink ≠ .discard → ∀ missing, InText missing fallback →
      InStmts sink (last.elim missing (bodyWorth false missing)) new
  | .body sink fallback body new => sink ≠ .discard → ∀ missing, InText missing fallback →
      InStmts sink (bodyWorth false missing body) new
  | .stmt sink fallback kind new => sink ≠ .discard → ∀ missing, InText missing fallback →
      InStmts sink (kind.worth false missing) new
  | .one _ kind _ _ => ∀ missing, kind.worth false missing = .value
  | .phrase _ | .binding _ => True

/-- What lowering makes of a part ends as the part does. -/
theorem Emits.ends {S : Scene} {outcome} (h : Emits S outcome) : Ends outcome := by
  induction h with
  | na => exact ⟨by decide, .na⟩
  | binary op => exact ⟨show Strength.ternary ≤ binaryStrength op by cases op <;> decide, .value _⟩
  | ternary _ _ _ _ _ hy hz =>
    refine ⟨Nat.le_refl _, ?_⟩
    rw [within_ternary hy.1, within_ternary hz.1]
    exact .choice _ hy.2 hz.2
  | ident | int | float | str | color | bool | unary | call | member | history | tuple =>
    exact ⟨Nat.le_of_ble_eq_true rfl, .value _⟩
  | called level hx _ ih => exact ⟨Nat.le_of_ble_eq_true rfl, .called level (hx ▸ ih (by decide))⟩
  | @ternaries d cases last _ _ _ hlast h =>
    refine ⟨Nat.le_refl _, ?_⟩
    have hworth : (Expr.switch d cases false).worth false = _ := worth_switch (fun _ _ => rfl) cases
    rw [hworth]
    refine h _ ?_
    cases hbody : defaultBody cases <;> exact (hbody ▸ hlast :)
  | single line _ ih =>
    rw [Ends, within_ternary ih.1]
    exact ih.2
  | unmatched h =>
    rw [Ends, valueWorth_eq, h]
    exact .undefined
  | none last => exact fun _ hlast => hlast
  | either _ _ _ _ hvalue h => exact fun w hlast => .choice _ hvalue (h w hlast)
  | plain sink hx _ _ _ ih =>
    rw [Ends, lifted_of_not_isChoice hx]
    exact fun hsink => .value hsink _ ih.2
  | @conditional _ branches last _ lifts _ ih =>
    have hworth : (Expr.conditional branches last lifts).worth false =
      chainWorth .na branches last := by
      cases last <;> simp only [Expr.worth, branchWorths_eq_map] <;> rfl
    exact fun hsink => hworth ▸ ih hsink .na .na
  | switch d lifts _ ih =>
    exact fun hsink => worth_lifted d _ lifts ▸ ih hsink .undefined .undefined
  | bare _ _ _ ih => exact fun hsink missing hmissing => (ih hsink missing hmissing).behind _
  | chain _ _ _ hsome _ harms hfinal =>
    intro hsink missing hmissing
    obtain ⟨last, rfl⟩ := Option.isSome_iff_exists.mp (hsome hsink)
    exact .chain _ (harms hsink missing hmissing _ last (hfinal last rfl hsink missing hmissing))
  | armsNil => exact fun _ _ _ _ _ h => .last h
  | armsCons _ _ _ _ hbody h =>
    exact fun hsink missing hmissing w last hlast =>
      .arm (hbody hsink missing hmissing) (h hsink missing hmissing w last hlast)
  | lastNone => exact fun hsink missing hmissing => .value hsink [] hmissing
  | lastSome _ ih => exact ih
  | bodyNil sink fallback => exact fun hsink _ _ => .value hsink [] (.value fallback)
  | bodyLast _ _ ih => exact ih
  | bodyCons _ _ _ _ ih => exact fun hsink missing hmissing => (ih hsink missing hmissing).behind _
  | oneOf _ _ _ _ ih _ =>
    intro hsink missing _
    rw [ih missing, ← List.singleton_append, ← List.append_assoc, ← List.append_assoc]
    exact .value hsink _ (.value _)
  | lifted => exact fun hsink _ _ => .value hsink (_ :: _) (.value _)
  | ifElse _ ih =>
    intro hsink missing hmissing
    rw [worth_ifElse]
    exact ih hsink missing (by rwa [if_neg hsink])
  | exprInto hx _ ih =>
    intro hsink _ _
    rw [if_neg hsink] at hx
    exact Expr.lifted_of_needsLifting hx ▸ ih hsink
  | exprLine => exact fun hsink => absurd rfl hsink
  | exprText hsink hx _ _ _ ih => exact fun _ _ _ => .value hsink _ ih.2
  | declared | reassign | function | type | forRange | forIn | whileLoop | retNone | ret | breakLoop
  | continueLoop => exact fun _ => rfl
  | _ => trivial

/-! ## Delivery on every path -/

mutual
/-- The statement delivers to the sink: it assigns or returns a value, or it is a chain that has a
last part and delivers in all its parts. -/
def deliversStmt (allowed : Emitted → Bool) (sink : Sink) : Emitted → Bool
  | .assign name _ => sink = .assign name
  | .ret _ => sink = .ret
  | .chain first more (some last) =>
    deliversArm allowed sink first && deliversArms allowed sink more &&
      deliversAmong allowed sink last
  | _ => false

/-- The statements under a test deliver. -/
def deliversArm (allowed : Emitted → Bool) (sink : Sink) : EmittedArm → Bool
  | ⟨_, body⟩ => deliversAmong allowed sink body

/-- The statements under every test deliver. -/
def deliversArms (allowed : Emitted → Bool) (sink : Sink) : List EmittedArm → Bool
  | [] => true
  | arm :: rest => deliversArm allowed sink arm && deliversArms allowed sink rest

/-- The last statement delivers, and all statements are allowed where they stand; so are those of
every block on the way to a value. -/
def deliversAmong (allowed : Emitted → Bool) (sink : Sink) : List Emitted → Bool
  | [] => false
  | [stmt] => allowed stmt && deliversStmt allowed sink stmt
  | stmt :: next :: rest => allowed stmt && deliversAmong allowed sink (next :: rest)
end

/-- The statements end by delivering to the sink on every path. -/
def delivers (sink : Sink) (stmts : List Emitted) : Bool := deliversAmong (fun _ => true) sink stmts

theorem deliversAmong_append (allowed : Emitted → Bool) (sink : Sink) (before : List Emitted) {rest}
    (hrest : rest ≠ []) : deliversAmong allowed sink (before ++ rest) =
      (before.all allowed && deliversAmong allowed sink rest) := by
  induction before with
  | nil => rfl
  | cons stmt before ih =>
    obtain ⟨next, tail, htail⟩ :=
      List.exists_cons_of_ne_nil (List.append_ne_nil_of_right_ne_nil before hrest)
    rw [List.cons_append, htail, deliversAmong, ← htail, ih, List.all_cons, Bool.and_assoc]

theorem deliversAmong_concat {allowed : Emitted → Bool} {sink before stmt} :
    deliversAmong allowed sink (before ++ [stmt]) =
      (before.all allowed && (allowed stmt && deliversStmt allowed sink stmt)) :=
  deliversAmong_append allowed sink before (List.cons_ne_nil stmt [])

mutual
/-- What ends in some way has been delivered. -/
theorem InStmts.delivers {sink w stmts} : InStmts sink w stmts → Lowering.delivers sink stmts = true
  | .value hsink before h => by
    cases sink with
    | assign name
    | ret => simp [Lowering.delivers, Sink.delivered, deliversAmong_concat, deliversStmt]
    | discard => exact absurd rfl hsink
  | .chain before h => by
    have harms := h.delivers
    simp only [deliversArms, Bool.and_eq_true] at harms
    simp only [Lowering.delivers] at harms ⊢
    simp [deliversAmong_concat, deliversStmt, harms]

theorem InArms.delivers {sink w arms last} : InArms sink w arms last →
      deliversArms (fun _ => true) sink arms = true ∧ Lowering.delivers sink last = true
  | .last h => ⟨rfl, h.delivers⟩
  | @InArms.arm _ _ _ ⟨_, _⟩ _ _ hyes hno =>
    ⟨Bool.and_eq_true_iff.mpr ⟨hyes.delivers, hno.delivers.1⟩, hno.delivers.2⟩
end

/-- **Lifted values are delivered on every path.**  In a sink that takes a value, whatever is
emitted for an expression ends by assigning the name of the sink, or by returning, under every test
of every chain and in its last part, to any depth. -/
theorem into_delivers (x : Expr) {sink : Sink} (hsink : sink ≠ .discard) (g : Generator) :
    ∃ new, (((lowerExpr x).into sink).run g).2.output = g.output ++ new ∧ delivers sink new =
      true := by
  obtain ⟨new, houtput, -, hnew⟩ := (follows_expr x False.elim).into sink (Scene.holds_ofState g)
  exact ⟨new, houtput, (hnew.ends hsink).delivers⟩

/-- A `switch` on `f()`.  Its case ends in an `if` without `else` around a loop, and its default in
a `switch` that has nothing but a default, which ends in a declaration. -/
def nestedChoice : Expr :=
  switchValue (some (.call (.ident "f") [] [])) [
    ⟨some (.int 1), [⟨.ifElse (.ident "c") [⟨.whileLoop (.bool false) [], 0⟩] [], 0⟩]⟩,
    ⟨none, [⟨.expr (switchValue none [⟨none, [⟨.varDecl .plain none (.name "y") (.int 2), 0⟩]⟩]),
      0⟩]⟩]

theorem nestedChoice_delivers : Sink.assign "x" ≠ .discard ∧
    ∃ new, (((lowerExpr nestedChoice).into (.assign "x")).run .initial).2.output = [] ++ new ∧
      delivers (.assign "x") new = true :=
  ⟨by decide, into_delivers nestedChoice (by decide) .initial⟩

end IndicatorCompiler.Lowering
