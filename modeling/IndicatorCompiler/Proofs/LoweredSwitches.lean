import IndicatorCompiler.Proofs.LiftedValues
import IndicatorCompiler.Proofs.LoweredAccesses

/-!
# Lowered switches

A `switch` whose cases are single expressions becomes a chain of choices, put together from the last
case to the first.  If its parts are read again, so is the chain: the first case whose condition
holds is chosen, and the default comes last, wherever it stands.  But without a discriminant the
test of a case is written as it is, in front of a question mark, so a test that is a choice itself
takes the rest of the chain for its own alternatives.
-/

namespace IndicatorCompiler.Lowering

open Pine
open Script (Written WrittenBefore endsName endsNumber)
open Text (Rendered)

/-! ## The parts of a `switch` -/

/-- The tests of the cases that have one. -/
def caseTests (cases : List Case) : List Expr := cases.filterMap (·.test)

/-- The values of the cases that have a test. -/
def caseValues (cases : List Case) : List Expr :=
  (cases.filter (·.test.isSome)).filterMap fun case => singleExpr? case.body

/-- The value of the default case; of several the last one counts. -/
def defaultValue? (cases : List Case) : Option Expr :=
  (cases.filter (·.test.isNone)).getLast?.bind fun case => singleExpr? case.body

/-- The state after expressions have been written one after another. -/
def passedAll (g : Generator) (xs : List Expr) : Generator := xs.foldl passed g

/-- The state after expressions have been written from the last to the first. -/
def passedBack (g : Generator) (xs : List Expr) : Generator := xs.foldr (fun x g => passed g x) g

/-- Expressions, lowered from the last to the first, are read as trees. -/
inductive RereadsBack (g : Generator) : List Expr → List Script.Expr → Prop
  | nil : RereadsBack g [] []
  | cons {x xs tree trees} (first : Rereads (passedBack g xs) x tree)
      (rest : RereadsBack g xs trees) : RereadsBack g (x :: xs) (tree :: trees)

/-- What is compared, with its value lowered. -/
def loweredSubject (discriminant : Option Expr) : Option (Expr × Lowered) :=
  discriminant.map fun value => (value, lowerExpr value)

/-- The state after what is compared has been written. -/
def subjectState (g : Generator) (discriminant : Option Expr) : Generator :=
  ((boundDiscriminant (loweredSubject discriminant)).run g).2

/-- The name that the value of a discriminant is bound to. -/
def boundName (g : Generator) (value : Expr) : String :=
  ((freshName switchStem).run (passed g value)).1

/-- What the cases are compared with: the discriminant itself if it is plain, and otherwise a
name. -/
inductive RereadsSubject (g : Generator) : Option Expr → Option Script.Expr → Prop
  | none : RereadsSubject g none none
  | plain {value tree} (hplain : isPlainOperand value = true) (h : Rereads g value tree) :
    RereadsSubject g (some value) (some tree)
  | bound {value tree} (hplain : isPlainOperand value = false) (h : Rereads g value tree) :
    RereadsSubject g (some value) (some (.ident (boundName g value)))

/-- Lowered in the state `g`, the parts of a `switch` are read again: what is compared as `subject`,
the cases as tests and values, and the default, if there is one, as `last`.  The tests are written
first, then the default, then the values from the last to the first. -/
structure RereadsSwitch (g : Generator) (discriminant : Option Expr) (cases : List Case)
    (subject : Option Script.Expr) (arms : List (Script.Expr × Script.Expr))
    (last : Option Script.Expr) : Prop where
  subject : RereadsSubject g discriminant subject
  tests : RereadsAll (subjectState g discriminant) (caseTests cases) (arms.map (·.1))
  last : Option.Rel (Rereads (passedAll (subjectState g discriminant) (caseTests cases)))
    (defaultValue? cases) last
  values : RereadsBack (passedAll (subjectState g discriminant)
    (caseTests cases ++ (defaultValue? cases).toList)) (caseValues cases) (arms.map (·.2))

/-- The condition of a case. -/
def conditionTree (subject : Option Script.Expr) (test : Script.Expr) : Script.Expr :=
  match subject with
  | none => test
  | some tree => .binary .eq tree test

/-- The chain that a `switch` stands for: the first case whose condition holds is chosen. -/
def switchTree (subject : Option Script.Expr) (arms : List (Script.Expr × Script.Expr))
    (last : Option Script.Expr) : Script.Expr :=
  arms.foldr (fun arm rest => .conditional (conditionTree subject arm.1) arm.2 rest)
    (last.getD .undefined)

/-- The expression is written as a choice. -/
def bindsAsChoice : Expr → Bool
  | .ternary _ _ _ => true
  | .switch _ _ lifts => !lifts
  | _ => false

/-! ## Conditions -/

/-- What is no choice binds tighter than one. -/
theorem strength_of_not_choice {x} (h : bindsAsChoice x = false) (g : Generator) :
    Strength.or ≤ (rendering g x).strength := by
  refine (strength_rendering g x).resolve_left fun hs => ?_
  cases x with
  | ternary => cases h
  | switch discriminant cases lifts =>
    obtain rfl : lifts = true := by simpa [bindsAsChoice] using h
    cases discriminant <;> exact absurd hs (by decide : Strength.call ≠ Strength.ternary)
  | call callee typeArgs args =>
    by_cases hmember : ∃ base property, callee = .member base property
    · obtain ⟨base, property, rfl⟩ := hmember
      exact absurd ((strength_memberCall g base _ property typeArgs _).symm.trans hs) (by decide)
    · rw [rendering, lowerExpr_call (by simpa using hmember)] at hs
      exact absurd hs (by decide : Strength.call ≠ Strength.ternary)
  | binary op left right =>
    have hop : binaryStrength op ≠ Strength.ternary := by cases op <;> decide
    exact hop hs
  | unary => exact absurd hs (by decide : Strength.unary ≠ Strength.ternary)
  | member | history | conditional => exact absurd hs (by decide : Strength.call ≠ Strength.ternary)
  | _ => exact absurd hs (by decide : Strength.primary ≠ Strength.ternary)

/-- A generated name can be bound. -/
theorem bindingName_switch (k : Nat) : Script.BindingName (switchStem ++ toString k) := by
  have hhead : (switchStem ++ toString k).toList.head? = some '_' := by simp [switchStem]
  have hdigit (c : Char) (hc : c ∈ Nat.toDigits 10 k) : Script.continuesName c = true := by
    simp [Script.continuesName, Char.isAlphanum,
      Nat.isDigit_of_mem_toDigits (by decide) (by decide) hc]
  refine ⟨?_, fun hreserved => ?_⟩
  · simp only [Script.isName, switchStem, String.toList_append, Nat.toString_eq_repr,
      Nat.toList_repr]
    simpa [Script.startsName, Script.continuesName] using hdigit
  · have hwords : ∀ word ∈ Script.reservedWords, word.toList.head? ≠ some '_' := by decide
    exact hwords _ hreserved hhead

theorem bindingName_boundName (g : Generator) (value : Expr) :
    Script.BindingName (boundName g value) := by
  obtain ⟨k, -, hk, -⟩ :=
    Text.numbered_eq (passed g value).declared switchStem (passed g value).fresh
  have hname : boundName g value = switchStem ++ toString k := congrArg Prod.fst hk
  exact hname ▸ bindingName_switch k

theorem written_name {name} (h : Script.BindingName name) {n} (hn : n ≤ 20) :
    Written n name (.ident name) :=
  (Script.prints_ident h.1 h.2).writtenBefore.mono Script.terminates_endsName hn

section

variable {g : Generator} {d : Option String} {subject : Option Script.Expr} {x : Expr}
    {tree : Script.Expr}

theorem written_subject {discriminant} (h : RereadsSubject g discriminant subject) :
    Option.Rel (Written 9) ((boundDiscriminant (loweredSubject discriminant)).run g).1 subject := by
  cases h with
  | none => exact .none
  | @plain value tree hplain h =>
    simp only [loweredSubject, Option.map_some, boundDiscriminant, discriminantText, hplain,
      if_true]
    exact .some ((h.within Strength.relational).mono (show 9 ≤ Strength.relational by decide))
  | @bound value tree hplain h =>
    simp only [loweredSubject, Option.map_some, boundDiscriminant, discriminantText, hplain]
    exact .some (written_name (bindingName_boundName g value) (by decide))

theorem written_condition (hd : Option.Rel (Written 9) d subject) (hx : Rereads g x tree)
    (hchoice : d = none → bindsAsChoice x = false) :
    Written 4 ((caseCondition d (lowerExpr x)).run g).1 (conditionTree subject tree) := by
  cases hd with
  | none => exact hx.bare (Nat.zero_le _) (strength_of_not_choice (hchoice rfl) g)
  | @some d subject hd =>
    have hequal := (Script.Written.binary .eq hd (hx.within Strength.relational)).writtenBefore
    have htext : ((caseCondition (some d) (lowerExpr x)).run g).1 =
        d ++ " " ++ Script.BinaryOp.eq.text ++ " " ++
        (rendering g x).within Strength.relational := by
      change d ++ " == " ++ _ = _
      rw [show " == " = " " ++ (Script.BinaryOp.eq.text ++ " ") by decide]
      simp only [String.append_assoc]
      rfl
    rw [htext]
    exact hequal.mono (fun _ => id) (show 4 ≤ Script.BinaryOp.eq.precedence by decide)

theorem caseCondition_state (d : Option String) (x : Expr) (g : Generator) :
    ((caseCondition d (lowerExpr x)).run g).2 = passed g x := by
  cases d <;> rfl

theorem written_conditions (hd : Option.Rel (Written 9) d subject) {cases trees}
    (h : RereadsAll g (caseTests cases) trees)
    (hchoice : d = none → ∀ x ∈ caseTests cases, bindsAsChoice x = false) :
    List.Forall₂ (fun arm tree => Written 4 arm.1 (conditionTree subject tree))
        ((caseConditions d (lowerCases cases)).run g).1 trees ∧
      ((caseConditions d (lowerCases cases)).run g).1.map (·.2) =
      (lowerCases cases).filter (·.test.isSome) ∧
      ((caseConditions d (lowerCases cases)).run g).2 = passedAll g (caseTests cases) := by
  induction cases generalizing g trees with
  | nil =>
    cases h
    exact ⟨.nil, rfl, rfl⟩
  | cons case cases ih =>
    obtain ⟨test, body⟩ := case
    cases test with
    | none => exact ih h hchoice
    | some test =>
      cases h with
      | cons first rest =>
        have hcondition :=
          written_condition hd first fun hnone => hchoice hnone test List.mem_cons_self
        obtain ⟨hconditions, hcases, hstate⟩ := ih rest fun hnone x hx =>
          hchoice hnone x (List.mem_cons_of_mem _ hx)
        have hpassed := caseCondition_state d test g
        rw [← hpassed] at hconditions hcases
        refine ⟨.cons hcondition hconditions, congrArg (_ :: ·) hcases, ?_⟩
        change ((caseConditions d (lowerCases cases)).run
          ((caseCondition d (lowerExpr test)).run g).2).2 = _
        rw [hpassed]
        exact hstate

end

/-! ## Values -/

section

variable {g : Generator} {cases : List Case}

theorem isSome_loweredCase (case : Case) : (loweredCase case).test.isSome = case.test.isSome := by
  obtain ⟨test, body⟩ := case
  cases test <;> rfl

theorem value?_default (cases : List Case) :
    (defaultCase? (lowerCases cases)).bind (·.value?) = (defaultValue? cases).map lowerExpr := by
  rw [defaultCase?_lowerCases, defaultValue?]
  cases (cases.filter (·.test.isNone)).getLast? with
  | none => rfl
  | some case => exact singleValue?_lowerStmts case.body

theorem value?_tested (h : ∀ case ∈ cases, bodyNeedsLifting case.body = false) :
    ((lowerCases cases).filter (·.test.isSome)).map (·.value?) =
      (caseValues cases).map fun value => some (lowerExpr value) := by
  rw [lowerCases_eq_map, List.filter_map, List.map_map]
  simp only [Function.comp_def, isSome_loweredCase]
  rw [caseValues, List.map_filterMap]
  have htested : ∀ case ∈ cases.filter (·.test.isSome), bodyNeedsLifting case.body = false :=
    fun case hcase => h case (List.mem_of_mem_filter hcase)
  generalize cases.filter (·.test.isSome) = tested at htested
  induction tested with
  | nil => rfl
  | cons case tested ih =>
    obtain ⟨hcase, hrest⟩ := List.forall_mem_cons.mp htested
    obtain ⟨test, body⟩ := case
    obtain ⟨value, line, rfl⟩ := exists_of_not_needsLifting hcase
    exact congrArg (_ :: ·) (ih hrest)

theorem written_last {value last} (h : Option.Rel (Rereads g) value last) :
    Written 2 ((caseValue (value.map lowerExpr)).run g).1 (last.getD .undefined) ∧
      ((caseValue (value.map lowerExpr)).run g).2 = passedAll g value.toList := by
  cases h with
  | none => exact ⟨written_name (show Script.BindingName "undefined" by decide) (by decide), rfl⟩
  | some h => exact ⟨h.value (Nat.le_refl _), rfl⟩

theorem written_ternaries {subject : Option Script.Expr} {arms : List (String × LoweredCase)}
    {trees : List (Script.Expr × Script.Expr)} {values last lastTree}
    (hconditions : List.Forall₂ (fun arm tree => Written 4 arm.1 (conditionTree subject tree.1))
      arms trees)
    (hvalues : arms.map (·.2.value?) = values.map fun value => some (lowerExpr value))
    (htrees : RereadsBack g values (trees.map (·.2))) (hlast : Written 2 last lastTree) :
    Written 2 ((caseTernaries arms last).run g).1
        (trees.foldr (fun arm rest => .conditional (conditionTree subject arm.1) arm.2 rest)
          lastTree) ∧
      ((caseTernaries arms last).run g).2 = passedBack g values := by
  induction hconditions generalizing values with
  | nil =>
    cases htrees
    exact ⟨hlast, rfl⟩
  | @cons arm tree arms trees hcondition _ ih =>
    cases htrees with
    | @cons value values _ _ first rest =>
      obtain ⟨hvalue, hvalues⟩ := List.cons_eq_cons.mp hvalues
      obtain ⟨hrest, hstate⟩ := ih hvalues rest
      have hrun : (caseTernaries (arm :: arms) last).run g =
          (arm.1 ++ " ? " ++ (rendering (passedBack g values) value).within Strength.ternary ++
            " : " ++ ((caseTernaries arms last).run g).1, passed (passedBack g values) value) := by
        rw [caseTernaries, List.foldrM_cons, ← hstate]
        simp only [StateT.run_bind, hvalue]
        rfl
      have hchoice := Script.Written.choice hcondition (first.value (Nat.le_refl _)) hrest
      rw [hrun]
      exact ⟨hchoice.writtenBefore.mono (fun _ => id)
        (show 2 ≤ Script.Strength.conditional by decide), rfl⟩

end

/-! ## Chains -/

theorem lowerExpr_switch (discriminant : Option Expr) (cases : List Case) (lifts : Bool) :
    lowerExpr (.switch discriminant cases lifts) =
      lowerSwitch (loweredSubject discriminant) (lowerCases cases) lifts := by
  cases discriminant <;> rfl

theorem rereads_choice {g x text tree} (hx : rendering g x = ⟨text, Strength.ternary⟩)
    (h : Written 2 text tree) : Rereads g x tree := by
  have hfollow : mayFollow x (rendering g x) = endsNumber := by
    simp [mayFollow, hx, Strength.ternary, Strength.call]
  rw [Rereads, hfollow, hx]
  exact h

section

variable {g : Generator} {discriminant : Option Expr} {cases : List Case}
  {subject : Option Script.Expr} {arms : List (Script.Expr × Script.Expr)}
  {last : Option Script.Expr}

/-- A `switch` of single expressions is read as its chain. -/
theorem RereadsSwitch.rereads (h : RereadsSwitch g discriminant cases subject arms last)
    (hcases : ∀ case ∈ cases, bodyNeedsLifting case.body = false)
    (htests : discriminant = none → ∀ x ∈ caseTests cases, bindsAsChoice x = false) :
    Rereads g (.switch discriminant cases false) (switchTree subject arms last) := by
  have hnone : ((boundDiscriminant (loweredSubject discriminant)).run g).1 = none →
    discriminant = none := by
    cases discriminant with
    | none => exact fun _ => rfl
    | some value => exact fun hbound => nomatch hbound
  obtain ⟨hconditions, htested, hstate⟩ :=
    written_conditions (written_subject h.subject) h.tests fun hbound => htests (hnone hbound)
  obtain ⟨hlast, hlastState⟩ := written_last h.last
  have hvalues := h.values
  rw [passedAll, List.foldl_append, ← passedAll, ← passedAll, ← hlastState] at hvalues
  rw [← value?_default cases, ← hstate] at hlast hvalues
  rw [List.forall₂_map_right_iff] at hconditions
  have hvalue? := value?_tested hcases
  rw [← htested, List.map_map] at hvalue?
  refine rereads_choice ?_ (written_ternaries hconditions hvalue? hvalues hlast).1
  rw [rendering, lowerExpr_switch]
  rfl

/-- A discriminant that is not plain is bound in front, to all of its value. -/
theorem output_bound {value tree} (hplain : isPlainOperand value = false) (h : Rereads g value tree)
    (cases : List Case) :
    ∃ line more, (passed g (.switch (some value) cases false)).output =
        (passed g value).output ++ .line line :: more ∧
      Script.Program.ofSource line =
        .ok ⟨[.var .lexical [⟨.ident (boundName g value), some tree⟩]]⟩ := by
  have hsubject : (subjectState g (some value)).output = (passed g value).output ++
      [.line ("let " ++ boundName g value ++ " = " ++ ((lowerExpr value).text.run g).1 ++
        ";")] := by
    simp only [subjectState, loweredSubject, Option.map_some, boundDiscriminant,
      discriminantText, hplain]
    rfl
  have hfollows : ∀ d ∈ loweredSubject (some value), d.2.Follows (.ofState g) d.1 := by
    simpa [loweredSubject] using follows_expr value False.elim
  obtain ⟨-, -, hstate, -, hd⟩ := quiet_boundDiscriminant hfollows (Scene.holds_ofState g)
  obtain ⟨more, hmore, -⟩ :=
    quiet_switchArms none hd (follows_switchChain (follows_cases cases False.elim)) hstate.toHolds
  refine ⟨_, more, ?_, h.declared (bindingName_boundName g value)⟩
  rw [← subjectState, hsubject, List.append_assoc] at hmore
  exact hmore

/-- **A `switch` chooses its first matching case.**  The text of a `switch` whose cases are single
expressions is the chain of choices between the values of its cases, in order, by their conditions,
with the default, or `undefined`, at its end.  A discriminant that is not plain is bound in front,
to a name that stands for it in the conditions.  Without a discriminant no test may be a choice
itself. -/
theorem ofText?_switch (h : RereadsSwitch g discriminant cases subject arms last)
    (hlifts : (switchValue discriminant cases).needsLifting = false)
    (htests : discriminant = none → ∀ x ∈ caseTests cases, bindsAsChoice x = false) :
    Script.Expr.ofText? ((lowerExpr (switchValue discriminant cases)).text.run g).1 =
        some (switchTree subject arms last) ∧
      ∀ value, discriminant = some value → isPlainOperand value = false →
        ∃ tree line more, Rereads g value tree ∧ subject = some (.ident (boundName g value)) ∧
          (passed g (switchValue discriminant cases)).output = (passed g value).output ++
            .line line :: more ∧
          Script.Program.ofSource line =
            .ok ⟨[.var .lexical [⟨.ident (boundName g value), some tree⟩]]⟩ := by
  have hcases : ∀ case ∈ cases, bodyNeedsLifting case.body = false := by
    simpa [switchValue, Expr.needsLifting] using hlifts
  have hvalue : switchValue discriminant cases = .switch discriminant cases false :=
    congrArg (Expr.switch discriminant cases) hlifts
  rw [hvalue]
  refine ⟨(h.rereads hcases htests).ofText?, ?_⟩
  rintro value rfl hplain
  cases h.subject with
  | plain hplain' => exact absurd (hplain.symm.trans hplain') Bool.false_ne_true
  | @bound _ tree _ hvalue =>
    obtain ⟨line, more, houtput, hline⟩ := output_bound hplain hvalue cases
    exact ⟨tree, line, more, hvalue, rfl, houtput, hline⟩

end

/-- `a + 1` -/
def comparedSum : Expr := .binary .add (.ident "a") (.int 1)

/-- `p ? q : r` is compared with, and worth, a `switch` without a discriminant and without a
default; then comes the default, and then `2`, which is worth a choice. -/
def defaultBetween : List Case := [
  ⟨some (.ternary (.ident "p") (.ident "q") (.ident "r")),
    [⟨.expr (switchValue none [⟨some (.ident "p"), [⟨.expr (.int 1), 0⟩]⟩]), 0⟩]⟩,
  ⟨none, [⟨.expr (.str "d"), 0⟩]⟩,
  ⟨some (.int 2), [⟨.expr (.ternary (.ident "p") (.int 3) (.int 4)), 0⟩]⟩]

/-- The cases of `defaultBetween` that have a test. -/
def defaultBetweenTrees : List (Script.Expr × Script.Expr) := [
  (.conditional (.ident "p") (.ident "q") (.ident "r"),
    .conditional (.ident "p") (.nat 1) (.ident "undefined")),
  (.nat 2, .conditional (.ident "p") (.nat 3) (.nat 4))]

theorem defaultBetween_rereads : RereadsSwitch .initial (some comparedSum) defaultBetween
    (some (.ident "_switch0")) defaultBetweenTrees (some (.str "d")) := by
  have hinner (g : Generator) : Rereads g
    (switchValue none [⟨some (.ident "p"), [⟨.expr (.int 1), 0⟩]⟩])
      (.conditional (.ident "p") (.nat 1) (.ident "undefined")) := by
    have hparts : RereadsSwitch g none [⟨some (.ident "p"), [⟨.expr (.int 1), 0⟩]⟩] none
        [(.ident "p", .nat 1)] none :=
      ⟨.none, .cons (rereads_operatorTree _ rfl _) .nil, .none,
        .cons (rereads_operatorTree _ rfl _) .nil⟩
    exact hparts.rereads (by simp [bodyNeedsLifting, Expr.needsLifting])
      (by simp [caseTests, bindsAsChoice])
  exact ⟨.bound rfl (rereads_operatorTree comparedSum rfl _),
    .cons (rereads_operatorTree _ rfl _) (.cons (rereads_operatorTree _ rfl _) .nil),
    .some (rereads_operatorTree _ rfl _),
    .cons (hinner _) (.cons (rereads_operatorTree _ rfl _) .nil)⟩

theorem defaultBetween_ofText? :
    RereadsSwitch .initial (some comparedSum) defaultBetween (some (.ident "_switch0"))
      defaultBetweenTrees (some (.str "d")) ∧
    (switchValue (some comparedSum) defaultBetween).needsLifting = false ∧
    Script.Expr.ofText? ((lowerExpr (switchValue (some comparedSum) defaultBetween)).text.run
      .initial).1 = some (.conditional
          (.binary .eq (.ident "_switch0") (.conditional (.ident "p") (.ident "q") (.ident "r")))
          (.conditional (.ident "p") (.nat 1) (.ident "undefined"))
          (.conditional (.binary .eq (.ident "_switch0") (.nat 2))
            (.conditional (.ident "p") (.nat 3) (.nat 4)) (.str "d"))) ∧
    ∃ tree line more, Rereads .initial comparedSum tree ∧
      (passed .initial (switchValue (some comparedSum) defaultBetween)).output =
        (passed .initial comparedSum).output ++ .line line :: more ∧
      Script.Program.ofSource line = .ok ⟨[.var .lexical [⟨.ident "_switch0", some tree⟩]]⟩ := by
  obtain ⟨htext, hbound⟩ := ofText?_switch defaultBetween_rereads rfl (fun h => nomatch h)
  obtain ⟨tree, line, more, hvalue, -, houtput, hline⟩ := hbound comparedSum rfl rfl
  exact ⟨defaultBetween_rereads, rfl, htext, tree, line, more, hvalue, houtput, hline⟩

/-- `a ? b : c` is a test. -/
def choiceTest : List Case := [
  ⟨some (.ternary (.ident "a") (.ident "b") (.ident "c")), [⟨.expr (.int 1), 0⟩]⟩,
  ⟨none, [⟨.expr (.int 2), 0⟩]⟩]

/-- A test that is a choice is taken apart: without a discriminant it is written as
`a ? b : c ? 1 : 2`, which chooses between `b` and what should be chosen between. -/
theorem choiceTest_regroups : RereadsSwitch .initial none choiceTest none
      [(.conditional (.ident "a") (.ident "b") (.ident "c"), .nat 1)] (some (.nat 2)) ∧
    (switchValue none choiceTest).needsLifting = false ∧
    Script.Expr.ofText? ((lowerExpr (switchValue none choiceTest)).text.run .initial).1 =
      some (.conditional (.ident "a") (.ident "b") (.conditional (.ident "c") (.nat 1) (.nat 2))) ∧
    switchTree none [(.conditional (.ident "a") (.ident "b") (.ident "c"), .nat 1)]
    (some (.nat 2)) ≠
      .conditional (.ident "a") (.ident "b") (.conditional (.ident "c") (.nat 1) (.nat 2)) := by
  refine ⟨⟨.none, .cons (rereads_operatorTree _ rfl _) .nil, .some (rereads_operatorTree _ rfl _),
    .cons (rereads_operatorTree _ rfl _) .nil⟩, rfl, ?_, fun h => nomatch h⟩
  -- The text is that of the ternaries that it is read as.
  have hread := rereads_operatorTree (.ternary (.ident "a") (.ident "b")
    (.ternary (.ident "c") (.int 1) (.int 2))) rfl .initial
  exact hread.ofText?

end IndicatorCompiler.Lowering
