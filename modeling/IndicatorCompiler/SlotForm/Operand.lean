import IndicatorCompiler.SlotForm.Walk
import IndicatorCompiler.Script.Destructuring

/-!
# Slotting expressions

An operand is an expression together with its slot form at each position.  The definitions here say
what the slot form of a node is, given those of its operands.

A persisted variable is read through `$.get` and written through `$.set`; `x[n]` reads the value
that `x` had `n` bars ago; equality is compared by the context, in the way of the indicator
language.
-/

namespace IndicatorCompiler.SlotForm

open Script

/-- An expression and its slot form. -/
structure Operand where
  expr : Expr
  slotForm : Position → Ancestors → Slotting Expr

namespace Operand

/-- The slot form of an expression whose current value is used. -/
def value (e : Operand) (ancestors : Ancestors) : Slotting Expr := e.slotForm .value ancestors

/-- Values of operands, from left to right. -/
def values (operands : List Operand) (ancestors : Ancestors) : Slotting (List Expr) :=
  operands.mapM (·.value ancestors)

/-! ## Names and literals -/

/-- A name at a position, by what it refers to. -/
def nameAt (name : String) : Resolution → Position → Expr
  | .rootParam, _ => .ident contextName
  | .foreign, _ | .loop, _ | .localTemp, _ => .ident name
  | .contextBound, .value => readNow (.ident name)
  | .contextBound, _ => .ident name
  | .slot renamed kind, .handle | .slot renamed kind, .target => slotRef kind renamed
  | .slot renamed kind, _ => readNow (slotRef kind renamed)

/-- A name. -/
def ident (name : String) : Operand where
  expr := .ident name
  slotForm position _ := return nameAt name (← resolve name) position

/-- A literal. -/
def lit (value : Literal) : Operand where
  expr := .lit value
  slotForm _ _ := return .lit value

/-- A literal count. -/
def nat (n : Nat) : Operand := lit (.num (.ofNat n))

/-! ## Operators -/

/-- An operator between two values; equality goes through the context. -/
def combined (op : BinaryOp) (left right : Expr) : Expr :=
  let equal : Expr := .call (.member (.member (.ident contextName) "math") "__eq") [left, right]
  match op with
  | .eq | .strictEq => equal
  | .notEq | .strictNotEq => .not equal
  | op => .binary op left right

/-- An operator between two operands. -/
def binary (op : BinaryOp) (left right : Operand) : Operand where
  expr := .binary op left.expr right.expr
  slotForm _ ancestors := do
    let here := "Binary" :: ancestors
    let l ← left.value here
    let r ← right.value here
    return combined op l r

/-- An operator in front of an operand. -/
def unary (op : UnaryOp) (arg : Operand) : Operand where
  expr := .unary op arg.expr
  slotForm _ ancestors := return .unary op (← arg.value ("Unary" :: ancestors))

/-- A choice between two values. -/
def conditional (test consequent alternate : Operand) : Operand where
  expr := .conditional test.expr consequent.expr alternate.expr
  slotForm _ ancestors := do
    let here := "Conditional" :: ancestors
    let t ← test.value here
    let c ← consequent.value here
    return .conditional t c (← alternate.value here)

/-- Elements in brackets. -/
def array (items : List Operand) : Operand where
  expr := .array (items.map (·.expr))
  slotForm _ ancestors := return .array (← values items ("Array" :: ancestors))

/-- Expressions with commas between them. -/
def sequenceOf (items : List Operand) : Operand where
  expr := .sequence (items.map (·.expr))
  slotForm _ ancestors := return .sequence (← values items ("Sequence" :: ancestors))

/-- The elements of an array in place. -/
def spread (arg : Operand) : Operand where
  expr := .spread arg.expr
  slotForm _ ancestors := return .spread (← arg.value ("Spread" :: ancestors))

/-- `new` with arguments. -/
def new (callee : Operand) (args : List Operand) : Operand where
  expr := .new callee.expr (args.map (·.expr))
  slotForm _ ancestors := do
    let here := "New" :: ancestors
    let c ← callee.slotForm .callee here
    return .new c (← values args here)

/-! ## Members and history -/

/-- A member by name. -/
def member (base : Operand) (name : String) : Operand where
  expr := .member base.expr name
  slotForm _ ancestors :=
    return .member (← base.slotForm .memberObject ("Member" :: ancestors)) name

/-- What stands `offset` bars back.  Variables and what hangs off the context have a history; any
other expression gets one by being kept in a slot, and a name that is neither has elements. -/
def historyOf (base : Operand) (offset : Expr) (ancestors : Ancestors) : Slotting Expr := do
  match base.expr with
  | .ident name =>
    match ← resolve name with
    | .slot renamed kind => return readAt (slotRef kind renamed) offset
    | .contextBound => return readAt (.ident name) offset
    | _ => return .index (← base.slotForm .memberObject ancestors) offset
  | e =>
    if isContextRooted (← fromScopes (·.rootName)) e then
      return readAt (← base.slotForm .memberObject ancestors) offset
    else
      let value ← base.value ancestors
      return readAt (← seriesTemp value ancestors) offset

/-- A member by index.  A string is the key of a property; any other index reads history, unless the
member is written. -/
def index (base i : Operand) : Operand where
  expr := .index base.expr i.expr
  slotForm position ancestors := do
    let here := "Member" :: ancestors
    if i.expr.isString then return .index (← base.slotForm .memberObject here) i.expr
    let offset ← i.value here
    if position = .target then return .index (← base.slotForm .memberObject here) offset
    historyOf base offset here

/-! ## Objects -/

/-- A property: its key, the slot form of a computed key, and its value. -/
structure PropertyOperand where
  key : PropertyKey
  computed : Option Operand
  value : Operand
  shorthand : Bool

/-- The slot form of a property can be written by its name alone if its value still is that name. -/
def staysShort (key : PropertyKey) (value : Expr) : Bool :=
  match key, value with
  | .name key, .ident name => key == name
  | _, _ => false

/-- The slot form of a property. -/
def PropertyOperand.slotForm (p : PropertyOperand) (ancestors : Ancestors) : Slotting Property := do
  let key ← match p.computed with
    | none => pure p.key
    | some key => do pure (.computed (← key.value ancestors))
  let value ← p.value.value ancestors
  return ⟨key, value, p.shorthand && staysShort key value⟩

/-- An object literal. -/
def object (properties : List PropertyOperand) : Operand where
  expr := .object (properties.map fun p => ⟨p.key, p.value.expr, p.shorthand⟩)
  slotForm _ ancestors := do
    let here := "Object" :: ancestors
    return .object (← properties.mapM (·.slotForm here))

end Operand

end IndicatorCompiler.SlotForm
