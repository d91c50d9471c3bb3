import IndicatorCompiler.Scope
import IndicatorCompiler.Text.Lines

/-!
# Walking a unit

In the slot form of a unit every persisted variable lives in a slot of the context.  It is built in
one walk over the tree of the unit.  On the way the walk keeps the scopes, and the statements that
have to stand in front of the statement that is being walked.  Each visit knows the nodes above it,
which failures report, and how its parent uses the expression.
-/

namespace IndicatorCompiler.SlotForm

open Script

/-- How an expression is used by its parent. -/
inductive Position where
  /-- Its current value is read. -/
  | value
  /-- It is called. -/
  | callee
  /-- One of its members is read. -/
  | memberObject
  /-- It is passed on with its history. -/
  | handle
  /-- It is written. -/
  | target
  deriving DecidableEq, Repr

/-- The nodes above a visit, the nearest first; the unit itself is left out. -/
abbrev Ancestors := List String

/-- The path from the unit down to a visit. -/
def pathText (ancestors : Ancestors) : String :=
  Text.joinWith " > " ("Program" :: ancestors.reverse)

/-- Why a walk fails. -/
inductive Cause where
  | contextAssignment
  | invalidDestructuring
  | invalidTarget
  | misplacedRest
  | destructuringDeclaration
  | nothingToHoistBefore
  deriving DecidableEq, Repr

namespace Cause

/-- The part of the walk that fails. -/
def pass : Cause → String
  | contextAssignment | invalidDestructuring | invalidTarget | misplacedRest => "expression"
  | destructuringDeclaration => "statement"
  | nothingToHoistBefore => "injection"

/-- What is wrong. -/
def text : Cause → String
  | contextAssignment => "assignment to the context parameter"
  | invalidDestructuring => "invalid destructuring target"
  | invalidTarget => "invalid assignment target"
  | misplacedRest => "rest element outside an array pattern"
  | destructuringDeclaration => "destructuring declaration reached the transformer"
  | nothingToHoistBefore => "no statement to hoist before"

end Cause

/-- A failed walk: why, and where in the tree. -/
structure SlottingError where
  cause : Cause
  ancestors : Ancestors
  deriving DecidableEq, Repr

/-- What a walk carries along. -/
structure Walk where
  scopes : Scopes
  /-- For each statement list that is being walked, the innermost first, the statements to be put
  in front of its current statement. -/
  hoisted : List (List Stmt)

/-- A step of a walk. -/
abbrev Slotting := StateT Walk (Except SlottingError)

variable {α : Type}

/-- Fail at a visit. -/
def fail (cause : Cause) (ancestors : Ancestors) : Slotting α := throw ⟨cause, ancestors⟩

/-! ## Scopes during a walk -/

/-- Read something off the scopes. -/
def fromScopes (f : Scopes → α) : Slotting α := return f (← get).scopes

/-- Change the scopes. -/
def modifyScopes (f : Scopes → Scopes) : Slotting PUnit :=
  modify fun w => { w with scopes := f w.scopes }

/-- Change the scopes and take a name from them. -/
def nameFromScopes (f : Scopes → String × Scopes) : Slotting String :=
  modifyGet fun w =>
    let (name, scopes) := f w.scopes
    (name, { w with scopes := scopes })

/-- What a name refers to. -/
def resolve (name : String) : Slotting Resolution := fromScopes (·.resolve name)

/-! ## Calls of the context -/

/-- `$.method(args)` -/
def contextCall (method : String) (args : List Expr) : Expr :=
  .call (.member (.ident contextName) method) args

/-- `$.kind.renamed` -/
def slotRef (kind : VarKind) (renamed : String) : Expr :=
  .member (.member (.ident contextName) kind.text) renamed

/-- `$.get(target, offset)` -/
def readAt (target offset : Expr) : Expr := contextCall "get" [target, offset]

/-- `$.get(target, 0)` -/
def readNow (target : Expr) : Expr := readAt target (.nat 0)

/-- `slot = $.method(slot, value)` -/
def initSlot (method : String) (slot value : Expr) : Stmt :=
  .expr (.assign .assign slot (contextCall method [slot, value]))

/-! ## Hoisting -/

/-- Put a statement in front of the one that is being walked. -/
def hoist (stmt : Stmt) (ancestors : Ancestors) : Slotting PUnit := do
  let w ← get
  match w.hoisted with
  | [] => fail .nothingToHoistBefore ancestors
  | first :: rest => set { w with hoisted := (first ++ [stmt]) :: rest }

/-- Put `const name = init` in front of the statement that is being walked. -/
def hoistConst (name : String) (init : Expr) (ancestors : Ancestors) : Slotting PUnit :=
  hoist (.var .constant [⟨.ident name, some init⟩]) ancestors

/-- Keep a value in a slot of its own, so that its history can be read. -/
def seriesTemp (value : Expr) (ancestors : Ancestors) : Slotting Expr := do
  let temp ← nameFromScopes Scopes.generateTemp
  let renamed ← nameFromScopes (·.addSeriesTemp temp)
  let slot := slotRef .lexical renamed
  hoist (initSlot "init" slot value) ancestors
  return slot

/-- A visit of a statement; it gives the statements that replace it. -/
abbrev Visit := Ancestors → Slotting (List Stmt)

/-- The visits that a statement gives rise to. -/
structure StmtVisits where
  /-- As a statement of a list. -/
  own : Visit
  /-- As the body of a loop or a branch: a block is opened. -/
  body : List Visit

/-- A statement that is no block. -/
def StmtVisits.single (visit : Visit) : StmtVisits := ⟨visit, [visit]⟩

/-- The statements hoisted in front of the current one; none are left. -/
def takeHoisted : Slotting (List Stmt) :=
  modifyGet fun w =>
    match w.hoisted with
    | [] => ([], w)
    | first :: rest => (first, { w with hoisted := [] :: rest })

/-- Walk statements, each behind what was hoisted in front of it. -/
def walkAll (ancestors : Ancestors) : List Visit → Slotting (List Stmt)
  | [] => return []
  | visit :: rest => do
    let stmts ← visit ancestors
    let hoisted ← takeHoisted
    return hoisted ++ stmts ++ (← walkAll ancestors rest)

/-- Walk a list of statements with hoisted statements of its own. -/
def sequence (visits : List Visit) (ancestors : Ancestors) : Slotting (List Stmt) := do
  modify fun w => { w with hoisted := [] :: w.hoisted }
  let stmts ← walkAll ancestors visits
  modify fun w => { w with hoisted := w.hoisted.tail }
  return stmts

/-- Walk a list of statements in a scope of its own. -/
def inScope (kind : ScopeKind) (visits : List Visit) (ancestors : Ancestors) :
    Slotting (List Stmt) := do
  modifyScopes (·.push kind)
  let stmts ← sequence visits ancestors
  modifyScopes (·.pop)
  return stmts

end IndicatorCompiler.SlotForm
