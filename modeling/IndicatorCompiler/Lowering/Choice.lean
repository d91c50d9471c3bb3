import IndicatorCompiler.Lowering.Expression

/-!
# Choices

`if` and `switch` choose between bodies.  Lowered for effect they are chains of `if`; lowered for
their value, every body of the chain ends by delivering its value to a sink.  A `switch` whose cases
are single expressions is a chain of ternaries.
-/

namespace IndicatorCompiler.Lowering

open Pine
open Text (Rendered)

/-- Statements whose last value goes to a sink; `fallback` is delivered if there is none. -/
abbrev Delivery := Sink → (fallback : String) → Gen Unit

/-- A test and what is done if it holds. -/
structure LoweredArm where
  test : Lowered
  body : Delivery

/-- An `if` with its `else if`s and its `else`. -/
structure LoweredChain where
  arms : List LoweredArm
  last : Option Delivery

/-- The ways to lower a statement. -/
structure LoweredStmt where
  /-- For its effect. -/
  effect : Gen Unit
  /-- As the last statement of a body that has a value. -/
  deliver : Delivery
  /-- The arms, if it is an `if`. -/
  chain? : Option LoweredChain
  /-- The value, if it is an expression. -/
  value? : Option Lowered

/-- The body that statements make. -/
def delivery (stmts : List LoweredStmt) : Delivery := fun sink fallback =>
  if sink = .discard then stmts.forM (·.effect)
  else match stmts.getLast? with
    | none => sink.deliver fallback
    | some last => do
      stmts.dropLast.forM (·.effect)
      last.deliver sink fallback

/-! ## Chains of `if` -/

/-- What is done if no test holds. -/
def otherwise (last : Option Delivery) (sink : Sink) (fallback : String) : Gen Unit :=
  match last with
  | some body => body sink fallback
  | none => sink.deliver fallback

/-- An arm with its body emitted. -/
def emittedArm (sink : Sink) (fallback : String) (arm : String × Delivery) : Gen EmittedArm := do
  return ⟨arm.1, ← block (arm.2 sink fallback)⟩

/-- Emit a chain.  Without an arm only the `else` remains; a value needs an `else`. -/
def emitChain (arms : List (String × Delivery)) (last : Option Delivery) (sink : Sink)
    (fallback : String) : Gen Unit := do
  match arms with
  | [] => otherwise last sink fallback
  | first :: more =>
    let first ← emittedArm sink fallback first
    let more ← more.mapM (emittedArm sink fallback)
    let final ← if last.isSome || sink ≠ .discard then
        some <$> block (otherwise last sink fallback)
      else pure none
    emit (.chain first more final)

/-- The arms with their tests written. -/
def testTexts (arms : List LoweredArm) : Gen (List (String × Delivery)) :=
  arms.mapM fun arm => return (← arm.test.text, arm.body)

/-- A chain of `if` as a body: every test is written before the chain is emitted. -/
def LoweredChain.deliver (chain : LoweredChain) : Delivery := fun sink fallback => do
  emitChain (← testTexts chain.arms) chain.last sink fallback

/-- What an `if` without `else` is worth if its tests fail. -/
def ifFallback : String := "NaN"

/-- `if` as a value. -/
def lowerConditional (arms : List LoweredArm) (last : Option Delivery) : Lowered :=
  .ofSink fun sink => (LoweredChain.mk arms last).deliver sink ifFallback

/-! ## `switch` -/

/-- What a `switch` without a default is worth if no case matches. -/
def switchFallback : String := "undefined"

/-- The stem of names that hold the value a `switch` compares. -/
def switchStem : String := "_switch"

/-- A case: its test, its body and its value if it is a single expression. -/
structure LoweredCase where
  test : Option Lowered
  body : Delivery
  value? : Option Lowered

/-- A value that may as well be computed again for each case. -/
def isPlainOperand : Expr → Bool
  | .ident _ | .int _ | .float _ | .str _ | .bool _ | .color _ | .na => true
  | .member base _ => isPlainOperand base
  | .unary _ operand => isPlainOperand operand
  | _ => false

/-- The text that is compared with each case.  A value that is not plain is computed once, in front
of the statement. -/
def discriminantText (value : Expr) (lowered : Lowered) : Gen String := do
  if isPlainOperand value then lowered.within Strength.relational
  else
    let text ← lowered.text
    let name ← freshName switchStem
    emit (.line ("let " ++ name ++ " = " ++ text ++ ";"))
    return name

/-- The condition of a case. -/
def caseCondition (discriminant : Option String) (test : Lowered) : Gen String := do
  match discriminant with
  | some d => return d ++ " == " ++ (← test.within Strength.relational)
  | none => test.text

/-- The cases that have a test, with their conditions. -/
def caseConditions (discriminant : Option String) :
    List LoweredCase → Gen (List (String × LoweredCase))
  | [] => return []
  | case :: rest => do
    match case.test with
    | none => caseConditions discriminant rest
    | some test =>
      let condition ← caseCondition discriminant test
      return (condition, case) :: (← caseConditions discriminant rest)

/-- The default case; of several the last one counts. -/
def defaultCase? (cases : List LoweredCase) : Option LoweredCase :=
  (cases.filter fun case => case.test.isNone).getLast?

/-- The value that is compared, if there is one. -/
def boundDiscriminant (discriminant : Option (Expr × Lowered)) : Gen (Option String) :=
  match discriminant with
  | none => return none
  | some (value, lowered) => some <$> discriminantText value lowered

/-- `switch` as a chain of `if`. -/
def switchInto (discriminant : Option (Expr × Lowered)) (cases : List LoweredCase) (sink : Sink) :
    Gen Unit := do
  let arms ← caseConditions (← boundDiscriminant discriminant) cases
  emitChain (arms.map fun (test, case) => (test, case.body))
    ((defaultCase? cases).map (·.body)) sink switchFallback

/-- The value of a case of a ternary chain. -/
def caseValue (value? : Option Lowered) : Gen String :=
  match value? with
  | some value => value.within Strength.ternary
  | none => return switchFallback

/-- The ternaries of cases in front of the last alternative; values are written from the last case
to the first. -/
def caseTernaries (arms : List (String × LoweredCase)) (last : String) : Gen String :=
  arms.foldrM
    (fun (test, case) alternate => do
      return test ++ " ? " ++ (← caseValue case.value?) ++ " : " ++ alternate)
    last

/-- `switch` as a chain of ternaries. -/
def renderSwitch (discriminant : Option (Expr × Lowered)) (cases : List LoweredCase) :
    Gen Rendered := do
  let arms ← caseConditions (← boundDiscriminant discriminant) cases
  let last ← caseValue ((defaultCase? cases).bind (·.value?))
  return ⟨← caseTernaries arms last, Strength.ternary⟩

/-- `switch` as a value. -/
def lowerSwitch (discriminant : Option (Expr × Lowered)) (cases : List LoweredCase) (lifts : Bool) :
    Lowered :=
  let lifted := Lowered.ofSink (switchInto discriminant cases)
  if lifts then lifted else { lifted with rendered := renderSwitch discriminant cases }

end IndicatorCompiler.Lowering
