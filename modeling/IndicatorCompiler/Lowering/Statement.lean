import IndicatorCompiler.Lowering.Choice

/-!
# Lowered statements

How each statement is emitted, given how its parts are lowered.
-/

namespace IndicatorCompiler.Lowering

open Pine

/-- A statement without a value, lowered for its effect. -/
def LoweredStmt.ofEffect (effect : Gen Unit) : LoweredStmt where
  effect := effect
  deliver sink fallback := do
    effect
    sink.deliver fallback
  chain? := none
  value? := none

/-- A statement that leaves a value behind. -/
def LoweredStmt.ofEffectValue (effect : Gen Unit) (value : Gen String) : LoweredStmt where
  effect := effect
  deliver sink _ := do
    effect
    sink.deliver (← value)
  chain? := none
  value? := none

/-- A statement on a line of its own. -/
def line (text : String) : Gen Unit := emit (.line text)

/-- A head with statements in braces. -/
def emitBlock (head : String) (body : List LoweredStmt) : Gen Unit := do
  emit (.block head (← block (body.forM (·.effect))))

/-! ## Declarations and assignments -/

/-- The word that declares a name. -/
def declWord : DeclMode → String
  | .plain => "let"
  | .var | .varip => "var"
  | .constant => "const"

/-- The word that declares the names of a tuple. -/
def tupleWord : DeclMode → String
  | .plain => "const"
  | mode => declWord mode

/-- Names in brackets. -/
def tupleText (names : List String) : String := "[" ++ Text.joinWith ", " names ++ "]"

/-- A declaration.  A value that has to be lifted is assigned after an empty declaration. -/
def emitDeclaration (mode : DeclMode) (target : DeclTarget) (lifts : Bool) (init : Lowered) :
    Gen Unit := do
  match target with
  | .name name =>
    let name ← reference name
    if mode = .plain && lifts then
      line ("let " ++ name ++ ";")
      init.into (.assign name)
    else
      let value ← init.text
      line (declWord mode ++ " " ++ name ++ " = " ++ value ++ ";")
  | .tuple names =>
    let names ← references names
    let value ← init.text
    line (tupleWord mode ++ " " ++ tupleText names ++ " = " ++ value ++ ";")

/-- What a declaration has bound, as a value. -/
def targetText : DeclTarget → Gen String
  | .name name => reference name
  | .tuple names => return tupleText (← references names)

/-- A declaration as a statement. -/
def lowerDeclaration (mode : DeclMode) (target : DeclTarget) (lifts : Bool) (init : Lowered) :
    LoweredStmt :=
  .ofEffectValue (emitDeclaration mode target lifts init) (targetText target)

/-- The operator of an assignment in a script. -/
def assignText : AssignOp → String
  | .assign => "="
  | .add => "+="
  | .sub => "-="
  | .mul => "*="
  | .div => "/="
  | .mod => "%="

/-- A reassignment. -/
def lowerReassign (target : Lowered) (op : AssignOp) (value : Lowered) : LoweredStmt :=
  .ofEffectValue
    (do
      let t ← target.text
      let v ← value.text
      line (t ++ " " ++ assignText op ++ " " ++ v ++ ";"))
    target.text

/-! ## Functions and types -/

/-- A parameter and its default. -/
structure LoweredParam where
  name : String
  default : Option Lowered

/-- The text of a parameter. -/
def LoweredParam.text (param : LoweredParam) : Gen String := do
  let name ← reference param.name
  match param.default with
  | none => return name
  | some value => return name ++ " = " ++ (← value.text)

/-- A function. -/
def emitFunction (name : String) (params : List LoweredParam) (body : List LoweredStmt) :
    Gen Unit := do
  let name ← reference name
  let params ← params.mapM (·.text)
  emitBlock ("function " ++ name ++ "(" ++ Text.joinWith ", " params ++ ")") body

/-- A field of a type: its name, the text of its type and its default. -/
structure LoweredField where
  name : String
  type : String
  default : Option Lowered

/-- The defaults of fields. -/
def defaultTexts : List LoweredField → Gen (List (String × String))
  | [] => return []
  | field :: rest => do
    match field.default with
    | none => defaultTexts rest
    | some value =>
      let text ← value.text
      return (field.name, text) :: (← defaultTexts rest)

/-- A type: an object with the types of its fields and, if there are any, one with defaults. -/
def emitType (name : String) (fields : List LoweredField) : Gen Unit := do
  let _ ← reference "Type"
  let types := fieldsText (fields.map fun field => (field.name, Text.quote field.type))
  let defaults ← defaultTexts fields
  let second := if defaults.isEmpty then "" else ", " ++ fieldsText defaults
  line ("const " ++ bindingName name ++ " = Type(" ++ types ++ second ++ ");")

/-! ## Loops -/

/-- The direction of a loop between two literals: downwards if the first is greater. -/
def descends? (start stop : Expr) : Option Bool := do
  return (← numericValue? stop).less (← numericValue? start)

/-- The direction and the update of a loop.  Literal bounds fix the direction, whatever the sign of
the step; otherwise a negative literal step does. -/
def loopStep (bounds : Option Bool) (step : Option (Expr × Lowered)) : Gen (Bool × String) := do
  match step with
  | none => return if bounds = some true then (true, "--") else (false, "++")
  | some (value, lowered) =>
    match bounds, numericValue? value with
    | some descends, some x =>
      return (descends, (if descends then " -= " else " += ") ++ x.abs.literal)
    | some descends, none =>
      let text ← lowered.text
      return (descends, (if descends then " -= " else " += ") ++ "Math.abs(" ++ text ++ ")")
    | none, x? => return (x?.any (·.less .zero), " += " ++ (← lowered.text))

/-- The head of a loop over a range. -/
def rangeHead (counter start stop : String) (step : Bool × String) : String :=
  "for (let " ++ counter ++ " = " ++ start ++ "; " ++ counter ++ (if step.1 then " >= " else " <= ")
    ++ stop ++ "; " ++ counter ++ step.2 ++ ")"

/-- A loop over a range. -/
def emitForRange (counter : String) (start stop : Expr × Lowered) (step : Option (Expr × Lowered))
    (body : List LoweredStmt) : Gen Unit := do
  let counter ← reference counter
  let first ← start.2.text
  let last ← stop.2.text
  let update ← loopStep (descends? start.1 stop.1) step
  emitBlock (rangeHead counter first last update) body

/-- A loop over a collection. -/
def emitForIn (target : ForTarget) (iterable : Lowered) (body : List LoweredStmt) : Gen Unit := do
  match target with
  | .name name =>
    let name ← reference name
    let collection ← iterable.text
    emitBlock ("for (const " ++ name ++ " of " ++ collection ++ ")") body
  | .pair index value =>
    let index ← reference index
    let value ← reference value
    let collection ← iterable.within Strength.call
    emitBlock ("for (const " ++ tupleText [index, value] ++ " of " ++ collection ++
      ".entries())") body

/-- A loop with a test. -/
def emitWhile (test : Lowered) (body : List LoweredStmt) : Gen Unit := do
  let test ← test.text
  emitBlock ("while (" ++ test ++ ")") body

/-! ## `if` and expressions -/

/-- An `if`: its own arm in front of those of the `if` that stands alone in its `else`. -/
def lowerIf (test : Lowered) (body otherwise : List LoweredStmt) : LoweredStmt :=
  let own : LoweredArm := ⟨test, delivery body⟩
  let chain : LoweredChain := match otherwise with
    | [] => ⟨[own], none⟩
    | [only] =>
      match only.chain? with
      | some rest => ⟨own :: rest.arms, rest.last⟩
      | none => ⟨[own], some (delivery otherwise)⟩
    | _ => ⟨[own], some (delivery otherwise)⟩
  { effect := chain.deliver .discard ifFallback
    deliver := chain.deliver
    chain? := some chain
    value? := none }

/-- `if` and `switch` stand as statements of their own. -/
def isChoice : Expr → Bool
  | .conditional _ _ _ => true
  | .switch _ _ _ => true
  | _ => false

/-- An expression as a statement. -/
def lowerExprStmt (value : Expr) (lowered : Lowered) : LoweredStmt where
  effect :=
    if isChoice value then lowered.into .discard
    else do line ((← lowered.text) ++ ";")
  deliver sink _ :=
    if value.needsLifting then lowered.into sink
    else do sink.deliver (← lowered.text)
  chain? := none
  value? := some lowered

/-- The result of a function. -/
def emitReturn (value : Option Lowered) : Gen Unit := do
  match value with
  | none => line "return;"
  | some value => emit (.ret (← value.text))

/-- The value that a body of one expression has. -/
def singleValue? : List LoweredStmt → Option Lowered
  | [stmt] => stmt.value?
  | _ => none

end IndicatorCompiler.Lowering
