import IndicatorCompiler.SlotForm.Operand

/-!
# Calls

A call of a stateful library keeps state from bar to bar, so every such call gets an identity, and
its arguments are captured in front of the statement through `library.param`, which sees each of
them as a series.  A call of a function that the unit declares goes through the context and gets an
identity too.  Inside such a function the identity is joined to that of the call that is running.
-/

namespace IndicatorCompiler.SlotForm

open Script

/-- Libraries whose calls carry state from bar to bar. -/
def statefulLibraries : List String :=
  ["ta", "math", "request", "array", "matrix", "map", "input", "str", "strategy", "color",
    "timeframe"]

/-- Functions that are called as they are, even if the unit declares one of that name. -/
def exemptFunctions : List String := ["na", "nz", "fixnan", "isNaN", "isFinite"]

/-- What identities of calls of declared functions are named after. -/
def userCallStem : String := "fn"

/-- An identity as the running code computes it. -/
def scopedId (id : String) : Slotting Expr := do
  if ← fromScopes (·.insideUserFunction) then
    return .binary .add (contextCall "peekCallId" []) (.str id)
  return .str id

/-- An argument, with its index if it reads a member by index. -/
structure CallArgument where
  operand : Operand
  index? : Option Operand

/-- An argument that reads a member by index. -/
def CallArgument.indexed (base i : Operand) : CallArgument := ⟨base.index i, some i⟩

/-- Any other argument. -/
def CallArgument.plain (operand : Operand) : CallArgument := ⟨operand, none⟩

/-! ## Declared functions -/

/-- The callee names a function that the unit declares, and nothing hides it. -/
def isUserCall (s : Scopes) (name : String) : Bool :=
  s.isUserFunction name && !exemptFunctions.contains name && s.resolve name == .foreign

/-- An argument of a declared function: a name is passed with its history. -/
def userArgument (arg : Operand) (ancestors : Ancestors) : Slotting Expr :=
  match arg.expr with
  | .ident _ => arg.slotForm .handle ancestors
  | _ => arg.value ancestors

/-- A call of a declared function. -/
def userCall (name : String) (args : List Operand) (ancestors : Ancestors) : Slotting Expr := do
  let args ← args.mapM (userArgument · ancestors)
  let id ← nameFromScopes (·.generateCall userCallStem)
  return contextCall "call" (.ident name :: (← scopedId id) :: args)

/-! ## Stateful libraries -/

/-- The library that a callee belongs to, if it is stateful and no variable hides it. -/
def statefulLibrary? (s : Scopes) (callee : Expr) : Option String :=
  match callee with
  | .member _ _ =>
    callee.rootIdent?.filter fun root =>
      statefulLibraries.contains root &&
        (s.resolve root == .contextBound || s.resolve root == .foreign)
  | _ => none

/-- The name refers to something with a history. -/
def hasHistory : Resolution → Bool
  | .slot _ _ => true
  | .contextBound => true
  | _ => false

/-- What a capture reads: a source, and how far back.  A name is passed with its history, and its
history is read by the capture itself. -/
def captureSource (arg : CallArgument) (ancestors : Ancestors) : Slotting (Expr × Expr) := do
  match arg.operand.expr, arg.index? with
  | .ident _, _ => return (← arg.operand.slotForm .handle ancestors, .undefined)
  | .index (.ident name) i, some offset =>
    if !i.isString && hasHistory (← resolve name) then
      let lookback ← offset.value ancestors
      return (← (Operand.ident name).slotForm .handle ancestors, lookback)
    return (← arg.operand.value ancestors, .undefined)
  | _, _ => return (← arg.operand.value ancestors, .undefined)

/-- Capture an argument in front of the statement; the result is the name of the capture. -/
def capture (library : String) (arg : CallArgument) (ancestors : Ancestors) : Slotting Expr := do
  let (source, lookback) ← captureSource arg ancestors
  let id ← nameFromScopes Scopes.generateParam
  modifyScopes (·.addTemp id)
  let init : Expr := .call (.member (.ident library) "param") [source, lookback, ← scopedId id]
  hoistConst id init ancestors
  return .ident id

/-- Objects, spreads and functions are no series. -/
def isSeriesArgument : Expr → Bool
  | .object _ | .spread _ | .function _ => false
  | _ => true

/-- An argument of a stateful library. -/
def libraryArgument (library : String) (arg : CallArgument) (ancestors : Ancestors) :
    Slotting Expr :=
  if isSeriesArgument arg.operand.expr then capture library arg ancestors
  else arg.operand.value ancestors

/-- A call of a stateful library; its identity is the last argument. -/
def libraryCall (library : String) (callee : Operand) (args : List CallArgument)
    (ancestors : Ancestors) : Slotting Expr := do
  let callee ← callee.slotForm .callee ancestors
  let args ← args.mapM (libraryArgument library · ancestors)
  let id ← nameFromScopes (·.generateCall library)
  return .call callee (args ++ [← scopedId id])

/-! ## All calls -/

/-- A call of anything else. -/
def plainCall (callee : Operand) (args : List Operand) (ancestors : Ancestors) :
    Slotting Expr := do
  let callee ← callee.slotForm .callee ancestors
  return .call callee (← Operand.values args ancestors)

/-- A call of a callee that is no declared function. -/
def otherCall (callee : Operand) (args : List CallArgument) (ancestors : Ancestors) :
    Slotting Expr := do
  match ← fromScopes (statefulLibrary? · callee.expr) with
  | some library => libraryCall library callee args ancestors
  | none => plainCall callee (args.map (·.operand)) ancestors

/-- A call. -/
def Operand.call (callee : Operand) (args : List CallArgument) : Operand where
  expr := .call callee.expr (args.map (·.operand.expr))
  slotForm _ ancestors := do
    let here := "Call" :: ancestors
    match callee.expr with
    | .ident name =>
      if ← fromScopes (isUserCall · name) then userCall name (args.map (·.operand)) here
      else otherCall callee args here
    | _ => otherCall callee args here

end IndicatorCompiler.SlotForm
