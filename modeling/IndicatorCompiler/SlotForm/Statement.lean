import IndicatorCompiler.SlotForm.Assign
import IndicatorCompiler.Script.Syntax.Pattern

/-!
# Slotting statements

A declaration of a variable initialises its slot.  Bodies are walked in scopes of their own.  What a
declared function returns is rounded by the context, unless it is a tuple.
-/

namespace IndicatorCompiler.SlotForm

open Script

/-- Bind names to the context in the innermost scope. -/
def bindToContext (names : List String) : Slotting PUnit :=
  modifyScopes fun s => names.foldl Scopes.addContextBound s

/-- Declare loop variables. -/
def bindLoop (names : List String) : Slotting PUnit :=
  modifyScopes fun s => names.foldl Scopes.addLoopVariable s

/-- The value of an operand that may be missing. -/
def value? (e : Option Operand) (ancestors : Ancestors) : Slotting (Option Expr) :=
  match e with
  | none => return none
  | some e => return some (← e.value ancestors)

/-! ## Declarations -/

/-- The context call that initialises a slot. -/
def initMethod : VarKind → String
  | .var => "initVar"
  | _ => "init"

/-- A binding of a declaration. -/
structure DeclaratorOperand where
  id : Pattern
  init : Option Operand

/-- The declaration takes its names off the context. -/
def isTakenOff (s : Scopes) (decl : DeclaratorOperand) : Bool :=
  decl.init.any fun init => isContextRooted s.rootName init.expr

/-- A declaration of names taken off the context; it stays. -/
def declareTakenOff (kind : VarKind) (decl : DeclaratorOperand) (ancestors : Ancestors) :
    Slotting Stmt := do
  bindToContext decl.id.boundNames
  return .var kind [⟨decl.id, ← value? decl.init ancestors⟩]

/-- A declaration of one name.  Temporaries and redeclared parameters stay plain bindings. -/
def declareName (kind : VarKind) (name : String) (init : Option Operand) (ancestors : Ancestors) :
    Slotting Stmt := do
  let init ← value? init ancestors
  let plain : Stmt := .var kind [⟨.ident name, init⟩]
  if (← resolve name) = .localTemp then return plain
  let renamed ← nameFromScopes (·.addVariable name kind)
  if renamed = name then return plain
  return initSlot (initMethod kind) (slotRef kind renamed) (init.getD .undefined)

/-- One binding of a declaration. -/
def declare (kind : VarKind) (decl : DeclaratorOperand) (ancestors : Ancestors) :
    Slotting Stmt := do
  if ← fromScopes (isTakenOff · decl) then declareTakenOff kind decl ancestors
  else match decl.id with
    | .ident name => declareName kind name decl.init ancestors
    | _ => fail .destructuringDeclaration ancestors

/-- A declaration. -/
def visitVar (kind : VarKind) (decls : List DeclaratorOperand) : Visit := fun ancestors =>
  decls.mapM (declare kind · ("VariableDeclaration" :: ancestors))

/-! ## Functions -/

/-- A parameter: its pattern and, if it has a default, its target and the default. -/
structure ParamOperand where
  pattern : Pattern
  default? : Option (Pattern × Operand)

/-- The slot form of a parameter; its names are bound to the context. -/
def ParamOperand.slotForm (param : ParamOperand) (ancestors : Ancestors) : Slotting Pattern := do
  let pattern ← match param.default? with
    | none => pure param.pattern
    | some (target, value) => do pure (.withDefault target (← value.value ancestors))
  bindToContext pattern.boundNames
  return pattern

/-- A function in parts. -/
structure FunctionParts where
  name : Option String
  params : List ParamOperand
  body : List Visit
  arrow : Bool

/-- The slot form of a function. -/
def FunctionParts.slotForm (f : FunctionParts) (frame : Frame) (ancestors : Ancestors) :
    Slotting Function := do
  modifyScopes (·.enterFunction frame)
  let params ← f.params.mapM (·.slotForm ancestors)
  let body ← sequence f.body ancestors
  modifyScopes (·.exitFunction)
  return ⟨f.name, params, .block body, f.arrow⟩

/-- A function as a value. -/
def Operand.function (e : Expr) (f : FunctionParts) : Operand where
  expr := e
  slotForm _ ancestors :=
    return .function (← f.slotForm .inline ("FunctionExpression" :: ancestors))

/-- A function declaration. -/
def visitFunction (f : FunctionParts) : Visit := fun ancestors =>
  return [.function (← f.slotForm .user ("FunctionDeclaration" :: ancestors))]

/-- What is returned: a value, with its elements if it is an array. -/
structure ReturnedOperand where
  value : Operand
  elements? : Option (List Operand)

/-- An array is returned. -/
def ReturnedOperand.array (elements : List Operand) : ReturnedOperand :=
  ⟨.array elements, some elements⟩

/-- Any other value is returned. -/
def ReturnedOperand.plain (value : Operand) : ReturnedOperand := ⟨value, none⟩

/-- What a declared function returns. -/
def userReturn (returned : ReturnedOperand) (ancestors : Ancestors) : Slotting Expr := do
  match returned.elements? with
  | some elements => return .array (← Operand.values elements ancestors)
  | none => return contextCall "precision" [← returned.value.value ancestors]

/-- `return` -/
def visitReturn (returned : Option ReturnedOperand) : Visit := fun ancestors => do
  let here := "Return" :: ancestors
  match returned with
  | none => return [.ret none]
  | some returned =>
    if ← fromScopes (·.inUserFunctionBody) then return [.ret (some (← userReturn returned here))]
    return [.ret (some (← returned.value.value here))]

/-! ## Control flow -/

/-- What stands after `else`; a chain of `if` goes on. -/
def alternateStmt : List Stmt → Stmt
  | [.ifElse test consequent alternate] => .ifElse test consequent alternate
  | stmts => .block stmts

/-- `if` -/
def visitIf (test : Operand) (consequent : List Visit) (alternate : Option (List Visit)) : Visit :=
  fun ancestors => do
    let here := "If" :: ancestors
    let t ← test.value here
    let c ← inScope .ifBranch consequent here
    let a ← match alternate with
      | none => pure none
      | some visits => do pure (some (alternateStmt (← inScope .elseBranch visits here)))
    return [.ifElse t (.block c) a]

/-- A binding of a counting loop. -/
def loopDeclarator (decl : DeclaratorOperand) (ancestors : Ancestors) : Slotting Declarator := do
  let init ← value? decl.init ancestors
  bindLoop decl.id.boundNames
  return ⟨decl.id, init⟩

/-- What a counting loop starts with. -/
inductive InitOperand where
  | declare (kind : VarKind) (decls : List DeclaratorOperand)
  | expr (value : Operand)

/-- The start of a counting loop. -/
def InitOperand.slotForm (ancestors : Ancestors) : InitOperand → Slotting ForInit
  | declare kind decls => return .declare kind (← decls.mapM (loopDeclarator · ancestors))
  | expr value => return .expr (← value.value ancestors)

/-- A counting loop. -/
def visitFor (init : Option InitOperand) (test update : Option Operand) (body : List Visit) :
    Visit := fun ancestors => do
  let here := "For" :: ancestors
  modifyScopes (·.push .forLoop)
  let i ← match init with
    | none => pure none
    | some init => do pure (some (← init.slotForm here))
  let t ← value? test here
  let u ← value? update here
  let b ← sequence body here
  modifyScopes (·.pop)
  return [.forLoop i t u (.block b)]

/-- A loop over a collection. -/
def visitForEach (each : ForEachKind) (kind : Option VarKind) (pattern : Pattern) (right : Operand)
    (body : List Visit) : Visit := fun ancestors => do
  let here := "ForEach" :: ancestors
  let r ← right.value here
  modifyScopes (·.push .forLoop)
  bindLoop pattern.boundNames
  let b ← sequence body here
  modifyScopes (·.pop)
  return [.forEach each kind pattern r (.block b)]

/-- A loop with a test. -/
def visitWhile (test : Operand) (body : List Visit) : Visit := fun ancestors => do
  let here := "While" :: ancestors
  let t ← test.value here
  return [.whileLoop t (.block (← inScope .whileLoop body here))]

/-- A block. -/
def visitBlock (body : List Visit) : Visit := fun ancestors => do
  return [.block (← inScope .block body ("Block" :: ancestors))]

/-- The visits of a block. -/
def blockVisits (body : List Visit) : StmtVisits := ⟨visitBlock body, body⟩

/-- An expression as a statement. -/
def visitExpr (e : Operand) : Visit := fun ancestors => do
  return [.expr (← e.value ("ExpressionStatement" :: ancestors))]

/-- A statement that stays. -/
def visitSame (stmt : Stmt) : Visit := fun _ => return [stmt]

/-- The visits of an empty statement. -/
def emptyVisits : StmtVisits := ⟨fun _ => return [], []⟩

end IndicatorCompiler.SlotForm
