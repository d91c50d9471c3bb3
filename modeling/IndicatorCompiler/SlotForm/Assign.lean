import IndicatorCompiler.SlotForm.Call

/-!
# Assignments

Assigning to a persisted variable sets its slot; with an arithmetic operator the old value is read
first.  A destructuring assignment computes its value once, in front of the statement, and assigns
each name from its part of it.
-/

namespace IndicatorCompiler.SlotForm

open Script

/-- Assign to a name. -/
def assignName (op : AssignOp) (name : String) (value : Operand) (ancestors : Ancestors) :
    Slotting Expr := do
  match ← resolve name with
  | .slot renamed kind =>
    let slot := slotRef kind renamed
    let v ← value.value ancestors
    let v := match op.arithmetic? with
      | some arithmetic => .binary arithmetic (readNow slot) v
      | none => v
    return contextCall "set" [slot, v]
  | .rootParam => fail .contextAssignment ancestors
  | _ => return .assign op (.ident name) (← value.value ancestors)

/-- Assign to a member. -/
def assignMember (op : AssignOp) (target value : Operand) (ancestors : Ancestors) :
    Slotting Expr := do
  let t ← target.slotForm .target ancestors
  return .assign op t (← value.value ancestors)

/-- How the parts of a destructured value are reached. -/
def operandAccess : Access Operand Operand where
  element source i := source.index (.nat i)
  elementsFrom source i := (source.member "slice").call [.plain (.nat i)]
  property source key := source.member key
  orDefault source value := .binary .nullish source value

/-- One write, or several with commas between them. -/
def writesExpr : List Expr → Expr
  | [only] => only
  | writes => .sequence writes

/-- Assign the parts of a value. -/
def destructure (shape : Shape Operand) (value : Operand) (ancestors : Ancestors) :
    Slotting Expr := do
  let v ← value.value ancestors
  let temp ← nameFromScopes Scopes.generateTemp
  modifyScopes (·.addTemp temp)
  hoistConst temp v ancestors
  match shape.leaves? operandAccess (.ident temp) with
  | none => fail .misplacedRest ancestors
  | some leaves =>
    return writesExpr (← leaves.mapM fun (name, part) => assignName .assign name part ancestors)

/-- What an assignment writes to. -/
inductive Target where
  | name (name : String)
  | member (access : Operand)
  /-- An array or an object, read as a destructuring if it can be. -/
  | parts (shape? : Option (Shape Operand))
  | invalid

/-- An assignment to an expression, which `written` says how to write to. -/
def Operand.assign (op : AssignOp) (target : Expr) (written : Target) (value : Operand) :
    Operand where
  expr := .assign op target value.expr
  slotForm _ ancestors := do
    let here := "Assign" :: ancestors
    match written with
    | .name name => assignName op name value here
    | .member access => assignMember op access value here
    | .parts shape? =>
      if op ≠ .assign then fail .invalidTarget here
      else match shape? with
        | some shape => destructure shape value here
        | none => fail .invalidDestructuring here
    | .invalid => fail .invalidTarget here

/-- The arithmetic of counting up or down. -/
def updateArithmetic : UpdateOp → BinaryOp
  | .increment => .add
  | .decrement => .sub

/-- Counting a variable up or down. -/
def Operand.update (op : UpdateOp) (prefixed : Bool) (arg : Operand) : Operand where
  expr := .update op prefixed arg.expr
  slotForm _ ancestors := do
    let plain : Slotting Expr :=
      return .update op prefixed (← arg.slotForm .target ("Update" :: ancestors))
    match arg.expr with
    | .ident name =>
      match ← resolve name with
      | .slot renamed kind =>
        let slot := slotRef kind renamed
        return contextCall "set" [slot, .binary (updateArithmetic op) (readNow slot) (.nat 1)]
      | _ => plain
    | _ => plain

end IndicatorCompiler.SlotForm
