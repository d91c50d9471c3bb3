import IndicatorCompiler.Lowering.Generator
import IndicatorCompiler.Number.Display
import IndicatorCompiler.Pine.Syntax.Branches
import IndicatorCompiler.Text.Quoted
import IndicatorCompiler.Text.Rendered

/-!
# Lowered expressions

An expression is written as text that knows how strongly it binds.  A value that holds statements
can also be delivered into a sink.  The definitions here say how a node is written, given how its
parts are.
-/

namespace IndicatorCompiler.Lowering

open Pine
open Text (Rendered)

/-! ## Strength -/

namespace Strength

/-- Anything at all. -/
def lowest : Nat := 0
/-- An argument of a call. -/
def argument : Nat := 1
/-- `a ? b : c` -/
def ternary : Nat := 2
/-- `a || b` -/
def or : Nat := 4
/-- `a && b` -/
def and : Nat := 5
/-- `a == b` -/
def equality : Nat := 9
/-- `a < b` -/
def relational : Nat := 10
/-- `a + b` -/
def additive : Nat := 12
/-- `a * b` -/
def multiplicative : Nat := 13
/-- `-a` -/
def unary : Nat := 15
/-- `f(a)`, `a.b`, `a[b]` -/
def call : Nat := 18
/-- Names and literals. -/
def primary : Nat := 20

end Strength

/-! ## Sinks -/

/-- Where the value of a branch goes. -/
inductive Sink where
  | assign (name : String)
  | ret
  | discard
  deriving DecidableEq, Repr

/-- Deliver a value. -/
def Sink.deliver (value : String) : Sink → Gen Unit
  | assign name => emit (.assign name value)
  | ret => emit (.ret value)
  | discard => return

/-- The two ways to lower an expression. -/
structure Lowered where
  /-- As text. -/
  rendered : Gen Rendered
  /-- Into a sink. -/
  into : Sink → Gen Unit

namespace Lowered

/-- The text of an expression where strength `least` is needed. -/
def within (e : Lowered) (least : Nat) : Gen String := return (← e.rendered).within least

/-- The text of an expression that may bind as it likes. -/
def text (e : Lowered) : Gen String := e.within Strength.lowest

/-- An expression that is always written as text. -/
def ofRendered (rendered : Gen Rendered) : Lowered where
  rendered := rendered
  into sink := do sink.deliver ((← rendered).within Strength.lowest)

/-- A value that is written as a function called on the spot. -/
def ofSink (into : Sink → Gen Unit) : Lowered where
  rendered := do
    let body ← block (into .ret)
    let level := (← get).level
    return ⟨"(() => \x7b\n" ++ Emitted.layoutAll (level + 1) body ++ Text.indentation level ++
      "\x7d)()", Strength.call⟩
  into := into

end Lowered

/-! ## Operators -/

/-- The operator in a script. -/
def binaryText : BinaryOp → String
  | .add => "+"
  | .sub => "-"
  | .mul => "*"
  | .div => "/"
  | .mod => "%"
  | .eq => "=="
  | .notEq => "!="
  | .lt => "<"
  | .ltEq => "<="
  | .gt => ">"
  | .gtEq => ">="
  | .and => "&&"
  | .or => "||"

/-- How strongly the operator binds in a script. -/
def binaryStrength : BinaryOp → Nat
  | .add | .sub => Strength.additive
  | .mul | .div | .mod => Strength.multiplicative
  | .eq | .notEq => Strength.equality
  | .lt | .ltEq | .gt | .gtEq => Strength.relational
  | .and => Strength.and
  | .or => Strength.or

/-- The operator in a script. -/
def unarySign : UnaryOp → Char
  | .neg => '-'
  | .plus => '+'
  | .not => '!'

/-- An operator between two operands. -/
def renderBinary (op : BinaryOp) (left right : Lowered) : Gen Rendered := do
  let strength := binaryStrength op
  let l ← left.within strength
  let r ← right.within (strength + 1)
  return ⟨l ++ " " ++ binaryText op ++ " " ++ r, strength⟩

/-- An operand with its sign; two equal signs would read as one operator. -/
def signed (op : UnaryOp) (operand : String) : String :=
  let inner :=
    if op ≠ .not && Text.beginsWith (unarySign op) operand then "(" ++ operand ++ ")" else operand
  (unarySign op).toString ++ inner

/-- An operator in front of an operand. -/
def renderUnary (op : UnaryOp) (operand : Lowered) : Gen Rendered := do
  return ⟨signed op (← operand.within Strength.unary), Strength.unary⟩

/-- A choice between two values. -/
def renderTernary (test consequent alternate : Lowered) : Gen Rendered := do
  let t ← test.within (Strength.ternary + 1)
  let c ← consequent.within Strength.ternary
  let a ← alternate.within Strength.ternary
  return ⟨t ++ " ? " ++ c ++ " : " ++ a, Strength.ternary⟩

/-! ## Accesses and calls -/

/-- A member of an object. -/
def renderMember (base : Lowered) (property : String) : Gen Rendered := do
  return ⟨(← base.within Strength.call) ++ "." ++ property, Strength.call⟩

/-- A series some bars back. -/
def renderHistory (target offset : Lowered) : Gen Rendered := do
  let t ← target.within Strength.call
  let o ← offset.text
  return ⟨t ++ "[" ++ o ++ "]", Strength.call⟩

/-- Values in brackets. -/
def renderTuple (items : List Lowered) : Gen Rendered := do
  let texts ← items.mapM (·.within Strength.argument)
  return ⟨"[" ++ Text.joinWith ", " texts ++ "]", Strength.primary⟩

/-- An argument: its name, if it is passed by name, and its value. -/
structure LoweredArgument where
  name : Option String
  value : Lowered

/-- The text of an argument. -/
def LoweredArgument.text (arg : LoweredArgument) : Gen (Option String × String) := do
  return (arg.name, ← arg.value.within Strength.argument)

/-- Fields in braces. -/
def fieldsText (fields : List (String × String)) : String :=
  "\x7b " ++ Text.joinWith ", " (fields.map fun (name, value) => name ++ ": " ++ value) ++ " \x7d"

/-- The arguments of a call: positional ones in order, then those with names in one object. -/
def argumentsText (receiver : List String) (args : List (Option String × String)) : String :=
  let positional := args.filterMap fun (name, value) => if name.isNone then some value else none
  let named := args.filterMap fun (name, value) => name.map fun n => (n, value)
  let last := if named.isEmpty then [] else [fieldsText named]
  Text.joinWith ", " (receiver ++ positional ++ last)

/-- A call of what has been written already. -/
def renderApplied (callee : String) (receiver : List String) (args : List LoweredArgument) :
    Gen Rendered := do
  let args ← args.mapM (·.text)
  return ⟨callee ++ "(" ++ argumentsText receiver args ++ ")", Strength.call⟩

/-- Element types with constructors of their own. -/
def primitiveTypes : List String :=
  ["float", "int", "bool", "string", "color", "line", "label", "box", "table", "linefill"]

/-- Libraries that have a constructor for each primitive element type. -/
def typedConstructors : List String := ["array", "matrix"]

/-- The constructor of a library for type arguments. -/
def constructorText (library : String) : List TypeRef → String
  | [type] =>
    if library ∈ typedConstructors && !type.array && type.name ∈ primitiveTypes then
      library ++ ".new_" ++ type.name
    else library ++ ".new"
  | _ => library ++ ".new"

/-- A name that nothing declares names a library. -/
def isLibrary (g : Generator) : Expr → Bool
  | .ident name => !g.declared.contains name
  | _ => false

/-- A call through a member.  A declared method takes the object as its first argument; `new` with
type arguments picks a constructor. -/
def renderMemberCall (base : Expr) (object : Lowered) (property : String) (typeArgs : List TypeRef)
    (args : List LoweredArgument) : Gen Rendered := do
  let g ← get
  if g.methods.contains property && !isLibrary g base then
    let receiver ← object.within Strength.argument
    let callee ← reference property
    renderApplied callee [receiver] args
  else
    let library ← object.within Strength.call
    if property == "new" && !typeArgs.isEmpty then
      renderApplied (constructorText library typeArgs) [] args
    else renderApplied (library ++ "." ++ property) [] args

/-- A call of anything else. -/
def renderCall (callee : Lowered) (args : List LoweredArgument) : Gen Rendered := do
  renderApplied (← callee.within Strength.call) [] args

/-! ## Literals -/

/-- The number that a literal, or a literal with minus signs in front, stands for. -/
def numericValue? : Expr → Option Number.Double
  | .int n => some (.ofNat n)
  | .float x => some x
  | .unary .neg operand => (numericValue? operand).map .neg
  | _ => none

/-- Text that binds as strongly as a name. -/
def primary (text : String) : Lowered := .ofRendered (return ⟨text, Strength.primary⟩)

end IndicatorCompiler.Lowering
