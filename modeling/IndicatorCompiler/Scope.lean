import IndicatorCompiler.Script.Syntax
import IndicatorCompiler.Text.Fresh

/-!
# Scopes and slots

A persisted variable `x` lives in a slot named after the scope that declares it: the kind of the
scope, a number that tells scopes of one kind apart, and the name of the variable.  The second `if`
block that is entered declares `x` as `if2_x`.  Scopes are numbered in the order in which they are
entered and a number is never used again.

`Scopes` holds the stack of open scopes together with what is known about names in the whole unit,
and hands out the names that slot forms insert.
-/

namespace IndicatorCompiler

open Script (VarKind)

/-- The name of the context in slot forms. -/
def contextName : String := "$"

/-- An expression that hangs off the context, under its own name or that of the parameter. -/
def isContextRooted (rootName : String) (e : Script.Expr) : Bool :=
  match e.rootIdent? with
  | some name => name == rootName || name == contextName
  | none => false

/-- Kinds of scope. -/
inductive ScopeKind where
  | global | function | ifBranch | elseBranch | forLoop | whileLoop | block
  deriving DecidableEq, Repr

/-- What the slots of a scope's variables are named after. -/
def ScopeKind.stem : ScopeKind → String
  | global => "glb"
  | function => "fn"
  | ifBranch => "if"
  | elseBranch => "els"
  | forLoop => "for"
  | whileLoop => "whl"
  | block => "blk"

/-- What a scope binds a name to. -/
inductive Binding where
  /-- A handle that is passed around as it is: a parameter, or a name taken off the context. -/
  | context
  /-- The variable of a loop. -/
  | loop
  /-- A temporary of the compiler. -/
  | temp
  /-- A persisted variable. -/
  | slot (renamed : String) (kind : VarKind)
  deriving DecidableEq, Repr

/-- What a name refers to. -/
inductive Resolution where
  /-- The context itself. -/
  | rootParam
  | contextBound
  | localTemp
  | loop
  /-- A persisted variable at `$.{kind}.{renamed}`. -/
  | slot (renamed : String) (kind : VarKind)
  /-- Anything that the unit does not declare. -/
  | foreign
  deriving DecidableEq, Repr

/-- How a bound name resolves. -/
def Binding.resolution : Binding → Resolution
  | context => .contextBound
  | loop => .loop
  | temp => .localTemp
  | slot renamed kind => .slot renamed kind

/-- An open scope. -/
structure Scope where
  kind : ScopeKind
  /-- Its number among the scopes of its kind, counted from one. -/
  number : Nat
  /-- What it binds; the latest binding of a name counts. -/
  bindings : List (String × Binding)
  deriving DecidableEq, Repr

namespace Scope

/-- What the scope binds a name to. -/
def lookup? (s : Scope) (name : String) : Option Binding := s.bindings.lookup name

/-- The slot of a variable that the scope declares. -/
def slotName (s : Scope) (name : String) : String :=
  s.kind.stem ++ toString s.number ++ "_" ++ name

end Scope

/-- The kind of function body that a walk is inside. -/
inductive Frame where
  /-- A declared function, called through the context. -/
  | user
  /-- Any other function. -/
  | inline
  deriving DecidableEq, Repr

/-- The open scopes and what is known about names in the unit. -/
structure Scopes where
  /-- The spelling of the context parameter in the source. -/
  rootName : String
  /-- The innermost open scope. -/
  inner : Scope
  /-- The scopes around it, the innermost first. -/
  outer : List Scope
  /-- The kind of every scope that was ever entered. -/
  entered : List ScopeKind
  /-- Names bound to the context in the whole unit. -/
  contextBound : List String
  /-- Every loop variable so far. -/
  loopVars : List String
  /-- Every temporary so far. -/
  temps : List String
  /-- Names that generated names avoid. -/
  reserved : List String
  userFunctions : List String
  /-- The function bodies around the walk, the innermost first. -/
  frames : List Frame
  /-- Number of the next capture. -/
  nextParam : Nat
  /-- Number of the next call. -/
  nextCall : Nat
  /-- Number of the next temporary. -/
  nextTemp : Nat
  deriving DecidableEq, Repr

namespace Scopes

/-- Only the global scope is open and nothing is known. -/
def ofRoot (rootName : String) : Scopes where
  rootName := rootName
  inner := ⟨.global, 1, []⟩
  outer := []
  entered := [.global]
  contextBound := []
  loopVars := []
  temps := []
  reserved := []
  userFunctions := []
  frames := []
  nextParam := 0
  nextCall := 0
  nextTemp := 0

/-- The open scopes, the innermost first. -/
def stack (s : Scopes) : List Scope := s.inner :: s.outer

/-! ## Entering and leaving -/

/-- Enter a scope. -/
def push (s : Scopes) (kind : ScopeKind) : Scopes :=
  { s with
    inner := ⟨kind, s.entered.count kind + 1, []⟩
    outer := s.inner :: s.outer
    entered := kind :: s.entered }

/-- Leave the innermost scope; the outermost one stays. -/
def pop (s : Scopes) : Scopes :=
  match s.outer with
  | [] => s
  | next :: more => { s with inner := next, outer := more }

/-- Enter a function body. -/
def enterFunction (s : Scopes) (frame : Frame) : Scopes :=
  { s with frames := frame :: s.frames }.push .function

/-- Leave a function body. -/
def exitFunction (s : Scopes) : Scopes := { s with frames := s.frames.tail }.pop

/-- The innermost function body is that of a declared function. -/
def inUserFunctionBody (s : Scopes) : Bool := s.frames.head? == some .user

/-- Some function body around the walk is that of a declared function. -/
def insideUserFunction (s : Scopes) : Bool := s.frames.contains .user

/-! ## Names -/

/-- The binding of a name in the innermost scope that has one. -/
def bindingIn? (name : String) : List Scope → Option Binding
  | [] => none
  | scope :: more => (scope.lookup? name).or (bindingIn? name more)

/-- What a name refers to: the context, the innermost binding, or what is known of it in the
unit. -/
def resolve (s : Scopes) (name : String) : Resolution :=
  if name = contextName ∨ name = s.rootName then .rootParam
  else
    match bindingIn? name s.stack with
    | some binding => binding.resolution
    | none =>
      if name ∈ s.temps then .localTemp
      else if name ∈ s.contextBound then .contextBound
      else if name ∈ s.loopVars then .loop
      else .foreign

/-- Bind a name in the innermost scope. -/
def bind (s : Scopes) (name : String) (binding : Binding) : Scopes :=
  { s with inner := { s.inner with bindings := (name, binding) :: s.inner.bindings } }

/-- Declare a persisted variable in the innermost scope; its slot's name is returned.  A name that
is bound to the context keeps its spelling and gets no slot. -/
def addVariable (s : Scopes) (name : String) (kind : VarKind) : String × Scopes :=
  if s.resolve name = .contextBound then (name, s)
  else
    let renamed := s.inner.slotName name
    (renamed, s.bind name (.slot renamed kind))

/-- Declare a temporary whose history is kept: a slot like that of a `let`. -/
def addSeriesTemp (s : Scopes) (name : String) : String × Scopes := s.addVariable name .lexical

/-- Bind a name to the context in the innermost scope. -/
def addContextBound (s : Scopes) (name : String) : Scopes := s.bind name .context

/-- Bind a name to the context in the whole unit. -/
def markContextBound (s : Scopes) (name : String) : Scopes :=
  { s with contextBound := name :: s.contextBound }

/-- Declare the variable of a loop. -/
def addLoopVariable (s : Scopes) (name : String) : Scopes :=
  { s with loopVars := name :: s.loopVars }.bind name .loop

/-- Declare a temporary. -/
def addTemp (s : Scopes) (name : String) : Scopes :=
  { s with temps := name :: s.temps }.bind name .temp

/-- Keep generated names away from a name. -/
def reserve (s : Scopes) (name : String) : Scopes := { s with reserved := name :: s.reserved }

/-- Declare a user function. -/
def addUserFunction (s : Scopes) (name : String) : Scopes :=
  { s with userFunctions := name :: s.userFunctions }

/-- The unit declares a function of this name. -/
def isUserFunction (s : Scopes) (name : String) : Bool := s.userFunctions.contains name

/-! ## Generated names -/

/-- A name for a capture: `p0`, `p1`, … -/
def generateParam (s : Scopes) : String × Scopes :=
  let (name, next) := Text.numbered s.reserved "p" s.nextParam
  (name, { s with nextParam := next })

/-- The identity of a call: `_ta0`, `_fn1`, … All namespaces count together. -/
def generateCall (s : Scopes) (namespaceName : String) : String × Scopes :=
  let (name, next) := Text.numbered s.reserved ("_" ++ namespaceName) s.nextCall
  (name, { s with nextCall := next })

/-- A name for a temporary: `_tmp0`, `_tmp1`, … -/
def generateTemp (s : Scopes) : String × Scopes :=
  let (name, next) := Text.numbered s.reserved "_tmp" s.nextTemp
  (name, { s with nextTemp := next })

end Scopes

end IndicatorCompiler
