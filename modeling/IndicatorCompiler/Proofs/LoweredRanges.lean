import IndicatorCompiler.Proofs.LoweredAccesses

/-!
# Lowered range loops

A loop over a range becomes a counting loop.  Its head is put together from the texts of the bounds
and of the step, without parentheses around any of them.  For the first bound and the step none are
needed.  The second bound stands behind a comparison, so the comparison is with the whole bound only
if the bound binds tighter than a comparison does.
-/

namespace IndicatorCompiler.Lowering

open Pine
open Script (Written WrittenBefore WrittenBlock endsName endsNumber)
open Text (Rendered)

/-! ## How a loop goes on -/

/-- The size of a literal step. -/
def sizeTree : Number.Double → Script.Expr
  | .finite _ x => .num (.finite false x)
  | .infinite _ => .ident "Infinity"
  | .nan => .ident "NaN"

/-- Adding to the counter, or subtracting from it. -/
def moveTree (counter : String) (down : Bool) (amount : Script.Expr) : Script.Expr :=
  .assign (if down then .sub else .add) (.ident counter) amount

/-- `Advance counter bounds step s down update`: whether a loop goes down and what its update is.
`bounds` is the direction between two literal bounds, and `s` is what the step is read as. -/
inductive Advance (counter : String) :
    Option Bool → Option Expr → Option Script.Expr → Bool → Script.Expr → Prop
  | increment {bounds} (hbounds : bounds ≠ some true) :
      Advance counter bounds none none false (.update .increment false (.ident counter))
  | decrement : Advance counter (some true) none none true
    (.update .decrement false (.ident counter))
  /-- Between literals, a literal step counts without its sign. -/
  | literal {down step s x} (hstep : numericValue? step = some x) :
      Advance counter (some down) (some step) (some s) down (moveTree counter down (sizeTree x))
  /-- So does any other step. -/
  | size {down step s} (hstep : numericValue? step = none) :
      Advance counter (some down) (some step) (some s) down
        (moveTree counter down (.call (.member (.ident "Math") "abs") [s]))
  /-- Otherwise the step is added as it is; a negative literal makes the loop go down. -/
  | signed {step s} :
      Advance counter none (some step) (some s) ((numericValue? step).any (·.less .zero))
        (moveTree counter false s)

/-- The update makes the counter smaller if the amount is positive. -/
def subtracts : Script.Expr → Bool
  | .update .decrement _ _ => true
  | .assign .sub _ _ => true
  | _ => false

/-- Between literal bounds, the direction is theirs, and the update goes in this direction. -/
theorem Advance.bounds {counter down descends step s update}
    (h : Advance counter (some descends) step s down update) :
    down = descends ∧ subtracts update = down := by
  cases h with
  | increment hbounds => simpa [subtracts] using hbounds
  | decrement => exact ⟨rfl, rfl⟩
  | literal hstep | size hstep => cases down <;> exact ⟨rfl, rfl⟩

/-! ## The texts of updates -/

section

variable {counter : String} {g : Generator}

theorem written_counter (h : Script.BindingName counter) :
    WrittenBefore endsName 20 counter (.ident counter) :=
  (Script.prints_ident h.1 h.2).writtenBefore

theorem written_one (h : Script.BindingName counter) (op : Script.UpdateOp) :
    Written 2 (counter ++ op.text) (.update op false (.ident counter)) :=
  (Script.Written.postfixUpdate op ((written_counter h).mono Script.terminates_endsName
    (show 17 ≤ 20 by decide))).writtenBefore.mono (fun _ => id) (show 2 ≤ 16 by decide)

theorem written_move (h : Script.BindingName counter) (down : Bool) {text amount}
    (hamount : Written 2 text amount) :
    Written 2 (counter ++ ((if down then " -= " else " += ") ++ text))
    (moveTree counter down amount) := by
  have htarget : Written 17 counter (.ident counter) :=
    (written_counter h).mono Script.terminates_endsName (by decide)
  have hassign :=
    (Script.Written.assign (if down then .sub else .add) htarget rfl hamount).writtenBefore
  have htext : counter ++ ((if down then " -= " else " += ") ++ text) =
      counter ++ " " ++ (if down then Script.AssignOp.sub else .add).text ++ " " ++ text := by
    cases down <;> simp [Script.AssignOp.text, String.append_assoc]
  rw [htext]
  exact hassign

theorem written_size (x : Number.Double) : Written 2 x.abs.literal (sizeTree x) := by
  have hnumber : numberTree? x.abs = some (sizeTree x) := by cases x <;> rfl
  have htext : (rendering .initial (.float x.abs)).within Strength.lowest = x.abs.literal := rfl
  rw [← htext]
  exact (rereads_number hnumber .initial).value (Nat.zero_le Strength.ternary)

theorem written_abs {text s} (h : Written 2 text s) :
    Written 2 ("Math.abs(" ++ text ++ ")") (.call (.member (.ident "Math") "abs") [s]) := by
  have hmath : WrittenBefore endsName 18 "Math" (.ident "Math") :=
    (written_counter (show Script.BindingName "Math" by decide)).mono (fun _ => id) (by decide)
  have hmember := (hmath.member (show Script.isName "abs" = true from rfl)).mono
    Script.terminates_endsName (Nat.le_refl 18)
  exact (hmember.call (.cons (Written.element h rfl rfl) .nil)).mono Script.terminates_endsName
    (by decide)

/-- The step of a loop, with its value lowered. -/
def loweredStep (step : Option Expr) : Option (Expr × Lowered) :=
  step.map fun value => (value, lowerExpr value)

/-- What is written behind the counter is read as the update. -/
theorem advance_loopStep (h : Script.BindingName counter) (bounds : Option Bool) {step s}
    (hstep : Option.Rel (Rereads g) step s) :
    ∃ down text update, ((loopStep bounds (loweredStep step)).run g).1 = (down, text) ∧
      Advance counter bounds step s down update ∧ Written 2 (counter ++ text) update := by
  cases hstep with
  | none =>
    by_cases hdown : bounds = some true
    · subst hdown
      exact ⟨_, _, _, rfl, .decrement, written_one h .decrement⟩
    · refine ⟨false, "++", _, ?_, .increment hdown, written_one h .increment⟩
      rw [loweredStep, Option.map_none, loopStep, if_neg hdown]
      rfl
  | @some step s hs =>
    have hvalue : Written 2 ((rendering g step).within Strength.lowest) s :=
      hs.value (Nat.zero_le Strength.ternary)
    cases bounds with
    | none => exact ⟨_, _, _, rfl, .signed, written_move h false hvalue⟩
    | some down =>
      cases hx : numericValue? step with
      | none =>
        refine ⟨down, _, _, ?_, .size hx, written_move h down (written_abs hvalue)⟩
        simp only [loweredStep, Option.map_some, loopStep, hx, String.append_assoc]
        rfl
      | some x =>
        refine ⟨down, _, _, ?_, .literal hx, written_move h down (written_size x)⟩
        simp only [loweredStep, Option.map_some, loopStep, hx]
        rfl

end

/-! ## Loops over ranges -/

/-- Lowered in the state `g`, the parts of a loop over a range are read again: the counter as a
name, the bounds as `a` and `b`, and the step, if there is one, as `s`. -/
structure RereadsRange (g : Generator) (counter : String) (start stop : Expr) (step : Option Expr)
    (a b : Script.Expr) (s : Option Script.Expr) : Prop where
  name : Script.BindingName (bindingName counter)
  first : Rereads (referred g counter) start a
  last : Rereads (passed (referred g counter) start) stop b
  amount : Option.Rel (Rereads (passed (passed (referred g counter) start) stop)) step s

/-- How strongly the second bound binds where it is written. -/
def boundStrength (g : Generator) (counter : String) (start stop : Expr) : Nat :=
  (rendering (passed (referred g counter) start) stop).strength

/-- What a loop compares its counter by. -/
def comparison (down : Bool) : Script.BinaryOp := if down then .gtEq else .ltEq

/-- The counting loop that a loop over a range stands for. -/
def rangeTree (counter : String) (a b : Script.Expr) (down : Bool) (update : Script.Expr)
    (body : List Script.Stmt) : Script.Stmt :=
  .forLoop (some (.declare .lexical [⟨.ident counter, some a⟩]))
    (some (.binary (comparison down) (.ident counter) b)) (some update) (.block body)

theorem written_rangeHead {counter first last step a b update down}
    (hcounter : Script.BindingName counter) (hfirst : Written 2 first a) (hlast : Written 11 last b)
    (hupdate : Written 2 (counter ++ step) update) {text body} (hbody : WrittenBlock text body) :
    Script.WrittenStmt (rangeHead counter first last (down, step) ++ " " ++ text)
      (rangeTree counter a b down update body) := by
  have hdeclarator := (Script.writtenTarget_ident hcounter.1 hcounter.2).initialised hfirst
  have htest : Written 10 (counter ++ " " ++ (comparison down).text ++ " " ++ last)
      (.binary (comparison down) (.ident counter) b) := by
    have hoperand : Written 10 counter (.ident counter) :=
      (written_counter hcounter).mono Script.terminates_endsName (by decide)
    cases down with
    | false => exact (Script.Written.binary .ltEq hoperand hlast).writtenBefore
    | true => exact (Script.Written.binary .gtEq hoperand hlast).writtenBefore
  have htext : rangeHead counter first last (down, step) ++ " " ++ text =
      "for (" ++ (Script.VarKind.text .lexical ++ " " ++
        Script.commas [counter ++ " = " ++ first]) ++
        ";" ++ Script.headPart (some (counter ++ " " ++ (comparison down).text ++ " " ++ last)) ++
        ";" ++
        Script.headPart (some (counter ++ step)) ++ ") " ++ text := by
    have hcomparison : (if down then " >= " else " <= ") = " " ++
      ((comparison down).text ++ " ") := by
      cases down <;> decide
    have hfor : "for (let " = "for (" ++ ("let" ++ " ") := by decide
    have hsemicolon : "; " = ";" ++ " " := by decide
    have hclose : ") " = ")" ++ " " := by decide
    unfold rangeHead
    simp only [Script.commas, Text.joinWith, Script.headPart, Script.VarKind.text, hcomparison]
    -- `rw` would then try to close the goal by unfolding the texts.
    rewrite [hfor, hsemicolon, hclose]
    simp only [String.append_assoc]
  rewrite [htext]
  exact Script.writtenStmt_forDeclare .lexical
    (.cons hdeclarator .nil) htest.optional hupdate.optional hbody

/-- The statement that is emitted last for a loop over a range. -/
theorem getLast?_range (g : Generator) (counter : String) (start stop : Expr) (step : Option Expr)
    (body : List Stmt) :
    ∃ inner, ((lowerStmt (.forRange counter start stop step body)).effect.run g).2.output.getLast? =
      some (.block (rangeHead (bindingName counter)
        ((rendering (referred g counter) start).within Strength.lowest)
        ((rendering (passed (referred g counter) start) stop).within Strength.lowest)
        ((loopStep (descends? start stop) (loweredStep step)).run
          (passed (passed (referred g counter) start) stop)).1) inner) := by
  cases step <;> exact ⟨_, List.getLast?_concat⟩

/-- The head that is emitted for a loop over a range is read, in front of any block, as a counting
loop from the whole of the first bound, as long as the counter compares with the whole of the second
one, in the direction of the step; literal bounds fix the direction.  The second bound has to bind
tighter than a comparison. -/
theorem ofSource_range {g : Generator} {counter : String} {start stop : Expr} {step : Option Expr}
    {a b : Script.Expr} {s : Option Script.Expr} (h : RereadsRange g counter start stop step a b s)
    (hbound : Strength.relational < boundStrength g counter start stop) (body : List Stmt) :
    ∃ head inner down update,
      ((lowerStmt (.forRange counter start stop step body)).effect.run g).2.output.getLast? =
        some (.block head inner) ∧
      (∀ text stmts, WrittenBlock text stmts → Script.Program.ofSource (head ++ " " ++ text) =
        .ok ⟨[rangeTree (bindingName counter) a b down update stmts]⟩) ∧
      Advance (bindingName counter) (descends? start stop) step s down update ∧
      ∀ x y, numericValue? start = some x → numericValue? stop = some y →
        down = y.less x ∧ subtracts update = down := by
  obtain ⟨down, text, update, hrun, hadvance, hupdate⟩ :=
    advance_loopStep h.name (descends? start stop) h.amount
  obtain ⟨inner, houtput⟩ := getLast?_range g counter start stop step body
  have hlast : Written 11
    ((rendering (passed (referred g counter) start) stop).within Strength.lowest)
      b := h.last.bare (Nat.zero_le _) hbound
  rw [hrun] at houtput
  refine ⟨_, inner, down, update, houtput, fun block stmts hblock => ?_, hadvance,
    fun x y hx hy => ?_⟩
  · exact (written_rangeHead h.name (h.first.value (Nat.zero_le Strength.ternary)) hlast hupdate
      hblock).ofSource
  · have hbounds : descends? start stop = some (y.less x) := by simp [descends?, hx, hy]
    rw [hbounds] at hadvance
    exact hadvance.bounds

/-- `for i = 5 to -1 by 2` goes down, whatever the sign of its step. -/
theorem descending_ofSource :
    RereadsRange .initial "i" (.int 5) (.unary .neg (.int 1)) (some (.int 2)) (.nat 5)
      (.unary .neg (.nat 1)) (some (.nat 2)) ∧
    Strength.relational < boundStrength .initial "i" (.int 5) (.unary .neg (.int 1)) ∧
    ∃ head inner update,
      ((lowerStmt (.forRange "i" (.int 5) (.unary .neg (.int 1)) (some (.int 2)) [])).effect.run
        .initial).2.output.getLast? = some (.block head inner) ∧
      (∀ text stmts, WrittenBlock text stmts → Script.Program.ofSource (head ++ " " ++ text) =
        .ok ⟨[rangeTree "i" (.nat 5) (.unary .neg (.nat 1)) true update stmts]⟩) ∧
      subtracts update = true := by
  have hrange : RereadsRange .initial "i" (.int 5) (.unary .neg (.int 1)) (some (.int 2)) (.nat 5)
      (.unary .neg (.nat 1)) (some (.nat 2)) :=
    ⟨by decide, rereads_operatorTree _ rfl _, rereads_operatorTree _ rfl _,
      .some (rereads_operatorTree _ rfl _)⟩
  have hbound : Strength.relational <
    boundStrength .initial "i" (.int 5) (.unary .neg (.int 1)) := by decide
  obtain ⟨head, inner, down, update, houtput, hread, -, hliteral⟩ := ofSource_range hrange hbound []
  obtain ⟨hdown, hsubtracts⟩ := hliteral _ _ rfl rfl
  obtain rfl : down = true := hdown.trans (by decide +kernel)
  exact ⟨hrange, hbound, head, inner, update, houtput, hread, hsubtracts⟩

/-- The loop is tested by a choice. -/
def testsChoice : Script.Stmt → Bool
  | .forLoop _ (some (.conditional _ _ _)) _ _ => true
  | _ => false

/-- `for i = 0 to a ? b : c` compares with `a` only: its test is a choice between `b` and `c`. -/
theorem weakBound_regroups :
    RereadsRange .initial "i" (.int 0) (.ternary (.ident "a") (.ident "b") (.ident "c")) none
      (.nat 0) (.conditional (.ident "a") (.ident "b") (.ident "c")) none ∧
    ∃ head inner,
    ((lowerStmt (.forRange "i" (.int 0) (.ternary (.ident "a") (.ident "b") (.ident "c")) none
        [])).effect.run .initial).2.output.getLast? = some (.block head inner) ∧
      ∃ program, Script.Program.ofSource (head ++ " \x7b\x7d") = .ok program ∧
        program.body.any testsChoice = true := by
  refine ⟨⟨by decide, rereads_operatorTree _ rfl _, rereads_operatorTree _ rfl _, .none⟩, ?_⟩
  obtain ⟨inner, houtput⟩ := getLast?_range .initial "i" (.int 0)
    (.ternary (.ident "a") (.ident "b") (.ident "c")) none []
  exact ⟨_, inner, houtput, eq_ok_of_any (by decide +kernel)⟩

end IndicatorCompiler.Lowering
