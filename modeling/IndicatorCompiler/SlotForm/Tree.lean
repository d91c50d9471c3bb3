import IndicatorCompiler.SlotForm.Statement

/-!
# Slotting of trees

The slot form of a node follows from the rule for its kind and the slot forms of its parts.  Every
part is visited once, also where a rule looks at it in two ways.
-/

namespace IndicatorCompiler.SlotForm

open Script

mutual
/-- The operand that an expression is. -/
def operand : Expr → Operand
  | .ident name => .ident name
  | .lit value => .lit value
  | .array items => .array (operands items)
  | .object properties => .object (propertyOperands properties)
  | .function f => .function (.function f) (functionParts f)
  | .unary op arg => .unary op (operand arg)
  | .update op prefixed arg => .update op prefixed (operand arg)
  | .binary op left right => .binary op (operand left) (operand right)
  | .assign op target value => .assign op target (written target) (operand value)
  | .conditional test consequent alternate =>
    .conditional (operand test) (operand consequent) (operand alternate)
  | .call callee args => .call (operand callee) (callArguments args)
  | .new callee args => .new (operand callee) (operands args)
  | .member base name => .member (operand base) name
  | .index base i => .index (operand base) (operand i)
  | .sequence items => .sequenceOf (operands items)
  | .spread arg => .spread (operand arg)

/-- The operands that expressions are. -/
def operands : List Expr → List Operand
  | [] => []
  | e :: rest => operand e :: operands rest

/-- The operand that an expression is, if it is there. -/
def operand? : Option Expr → Option Operand
  | none => none
  | some e => some (operand e)

/-- The arguments that expressions are. -/
def callArguments : List Expr → List CallArgument
  | [] => []
  | .index base i :: rest => .indexed (operand base) (operand i) :: callArguments rest
  | e :: rest => .plain (operand e) :: callArguments rest

/-- The properties of an object. -/
def propertyOperands : List Property → List Operand.PropertyOperand
  | [] => []
  | ⟨key, value, shorthand⟩ :: rest =>
    ⟨key, match key with
      | .computed e => some (operand e)
      | _ => none, operand value, shorthand⟩ :: propertyOperands rest

/-- An expression as the target of an assignment. -/
def written : Expr → Target
  | .ident name => .name name
  | .member base name => .member (.member (operand base) name)
  | .index base i => .member (.index (operand base) (operand i))
  | .array items => .parts ((shapeItems? items).map .array)
  | .object properties => .parts ((shapeProperties? properties).map .object)
  | _ => .invalid

/-- An expression read as a destructuring: names, arrays, objects without computed keys, plain
assignments as defaults and spreads as rest elements. -/
def shape? : Expr → Option (Shape Operand)
  | .ident name => some (.binding name)
  | .array items => (shapeItems? items).map .array
  | .object properties => (shapeProperties? properties).map .object
  | .assign .assign target value => (shape? target).map (.withDefault · (operand value))
  | .spread arg => (shape? arg).map .rest
  | _ => none

/-- Expressions read as elements of a destructuring. -/
def shapeItems? : List Expr → Option (List (Option (Shape Operand)))
  | [] => some []
  | e :: rest => do
    let item ← shape? e
    return some item :: (← shapeItems? rest)

/-- Properties read as properties of a destructuring. -/
def shapeProperties? : List Property → Option (List (String × Shape Operand))
  | [] => some []
  | ⟨.name key, value, _⟩ :: rest | ⟨.str key, value, _⟩ :: rest => do
    let item ← shape? value
    return (key, item) :: (← shapeProperties? rest)
  | ⟨.computed _, _, _⟩ :: _ => none

/-- The parts of a function. -/
def functionParts : Function → FunctionParts
  | ⟨name, params, body, arrow⟩ => ⟨name, paramOperands params, bodyVisits body, arrow⟩

/-- The visits of the body of a function; the value of an arrow is returned. -/
def bodyVisits : FunctionBody → List Visit
  | .block body => visits body
  | .expr (.array items) => [visitReturn (some (.array (operands items)))]
  | .expr value => [visitReturn (some (.plain (operand value)))]

/-- The parameters of a function. -/
def paramOperands : List Pattern → List ParamOperand
  | [] => []
  | param :: rest =>
    ⟨param, match param with
      | .withDefault target value => some (target, operand value)
      | _ => none⟩ :: paramOperands rest

/-- The visits of a statement. -/
def stmtVisits : Stmt → StmtVisits
  | .var kind decls => .single (visitVar kind (declaratorOperands decls))
  | .function f => .single (visitFunction (functionParts f))
  | .ret none => .single (visitReturn none)
  | .ret (some (.array items)) => .single (visitReturn (some (.array (operands items))))
  | .ret (some value) => .single (visitReturn (some (.plain (operand value))))
  | .ifElse test consequent alternate =>
    .single (visitIf (operand test) (stmtVisits consequent).body
      (match alternate with
        | none => none
        | some stmt => some (stmtVisits stmt).body))
  | .forLoop init test update body =>
    .single (visitFor
      (match init with
        | none => none
        | some (.declare kind decls) => some (.declare kind (declaratorOperands decls))
        | some (.expr value) => some (.expr (operand value)))
      (operand? test) (operand? update) (stmtVisits body).body)
  | .forEach each kind pattern right body =>
    .single (visitForEach each kind pattern (operand right) (stmtVisits body).body)
  | .whileLoop test body => .single (visitWhile (operand test) (stmtVisits body).body)
  | .block body => blockVisits (visits body)
  | .expr value => .single (visitExpr (operand value))
  | .breakLoop => .single (visitSame .breakLoop)
  | .continueLoop => .single (visitSame .continueLoop)
  | .empty => emptyVisits

/-- The visits of statements. -/
def visits : List Stmt → List Visit
  | [] => []
  | stmt :: rest => (stmtVisits stmt).own :: visits rest

/-- The bindings of a declaration. -/
def declaratorOperands : List Declarator → List DeclaratorOperand
  | [] => []
  | ⟨id, init⟩ :: rest => ⟨id, operand? init⟩ :: declaratorOperands rest
end

/-- The slot form of the body of a unit: a function of the context. -/
def slotUnit (body : List Stmt) (scopes : Scopes) : Except SlottingError Expr := do
  let (body, _) ← (sequence (visits body) []).run ⟨scopes, []⟩
  return .function ⟨none, [.ident contextName], .block body, true⟩

/-- `let x = y;` initialises a slot. -/
example : slotUnit [.var .lexical [⟨.ident "x", some (.ident "y")⟩]] (.ofRoot contextName) =
    .ok (.function ⟨none, [.ident contextName],
      .block [initSlot "init" (slotRef .lexical "glb1_x") (.ident "y")], true⟩) :=
  rfl

end IndicatorCompiler.SlotForm
