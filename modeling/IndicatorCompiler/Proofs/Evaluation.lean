import IndicatorCompiler.Scope
import IndicatorCompiler.Script.Syntax.Pattern

/-!
# Running script bodies

The part of the script without functions and members is given a meaning here: declarations,
assignments in statement position, branches, loops and blocks over pure expressions.  Variables are
block scoped.  A block opens all names that it declares when it is entered, and a name has no value
before its declaration has run, so reading it earlier fails.

The same evaluator runs slot forms.  The context is an abstract runtime: `$.kind.slot` is a place in
its store, and `$.get`, `$.set`, `$.init` and `$.math.__eq` do what `Runtime.Contract` promises.

A run is observed through its trace: the outcome of every test that decides on a branch or on one
more iteration, and every value that is written, in order.
-/

namespace IndicatorCompiler.Script

/-! ## Values and the runtime -/

/-- Values and what operators do with them; `none` is an operation that fails. -/
structure ValueModel (V : Type) where
  literal : Literal → V
  undefined : V
  truthy : V → Bool
  nullish : V → Bool
  unary : UnaryOp → V → Option V
  /-- Arithmetic and comparison. -/
  arithmetic : BinaryOp → V → V → Option V
  /-- The equality of the source; its strict spelling means the same. -/
  equal : V → V → Option V
  count : UpdateOp → V → Option V

/-- An operator whose operands are both evaluated. -/
def ValueModel.operate {V : Type} (M : ValueModel V) (op : BinaryOp) (a b : V) : Option V :=
  match op with
  | .eq | .strictEq => M.equal a b
  | .notEq | .strictNotEq => (M.equal a b).bind (M.unary .not)
  | op => M.arithmetic op a b

/-- What an assignment stores, by the old value and the one on its right. -/
def ValueModel.assigned {V : Type} (M : ValueModel V) (op : AssignOp) (old v : V) : Option V :=
  match op.arithmetic? with
  | some arithmetic => M.operate arithmetic old v
  | none => some v

/-- What the context offers to slot forms, over stores `S`. -/
structure Runtime (V S : Type) where
  init : VarKind → String → V → S → S
  set : VarKind → String → V → S → S
  get : VarKind → String → V → S → Option V
  equal : V → V → Option V

/-- The offset of the current value. -/
def ValueModel.now {V : Type} (M : ValueModel V) : V := M.literal (.num (.ofNat 0))

/-- Initialising or setting a slot stores the value in that slot and in no other, reading a slot at
offset zero gives the stored value, and the equality of the runtime is that of the source. -/
structure Runtime.Contract {V S : Type} (R : Runtime V S) (M : ValueModel V) : Prop where
  get_init : ∀ k r v s, R.get k r M.now (R.init k r v s) = some v
  get_init_ne : ∀ k r v s k' r', (k', r') ≠ (k, r) → R.get k' r' M.now (R.init k r v s) =
    R.get k' r' M.now s
  get_set : ∀ k r v s, R.get k r M.now (R.set k r v s) = some v
  get_set_ne : ∀ k r v s k' r', (k', r') ≠ (k, r) → R.get k' r' M.now (R.set k r v s) =
    R.get k' r' M.now s
  equal_eq : R.equal = M.equal

/-! ## Variables -/

/-- A variable; it has no value before its declaration has run. -/
structure Variable (V : Type) where
  kind : VarKind
  value : Option V
  deriving DecidableEq

/-- The variables in scope, the innermost first. -/
abbrev Env (V : Type) := List (String × Variable V)

namespace Env

variable {V : Type}

/-- The value of the innermost variable of a name.  A name that is no variable has none, except for
the global name of the undefined value. -/
def read (undefined : V) (env : Env V) (name : String) : Option V :=
  match env.lookup name with
  | some x => x.value
  | none => if name = "undefined" then some undefined else none

/-- Give a value to the innermost variable of a name. -/
def write (name : String) (v : V) : Env V → Env V
  | [] => []
  | (x, var) :: rest =>
    if x = name then (x, { var with value := some v }) :: rest else (x, var) :: write name v rest

/-- Variables without values. -/
def opened (names : List (String × VarKind)) : Env V := names.map fun (x, kind) => (x, ⟨kind, none⟩)

end Env

/-- What a run works on: the variables and the store of the runtime. -/
structure Machine (V S : Type) where
  env : Env V
  store : S
  deriving DecidableEq

/-- What can be seen of a run. -/
inductive Event (V : Type) where
  /-- A test decided on a branch or an iteration. -/
  | test (outcome : Bool)
  /-- A value was written. -/
  | write (value : V)
  deriving DecidableEq

/-- How a run ends; `none` is a run that fails or takes too many iterations. -/
abbrev Outcome (V S : Type) := Option (Machine V S × List (Event V))

variable {V S : Type}

/-- Two runs, one after the other. -/
def Outcome.andThen (first : Outcome V S) (next : Machine V S → Outcome V S) : Outcome V S :=
  first.bind fun (m, seen) => (next m).map fun (m', more) => (m', seen ++ more)

/-! ## Expressions -/

/-- The place that `$.kind.slot` names. -/
def slotOf? : Expr → Option (VarKind × String)
  | .member (.member (.ident c) word) renamed =>
    if c ≠ contextName then none
    else if word = VarKind.lexical.text then some (.lexical, renamed)
    else if word = VarKind.constant.text then some (.constant, renamed)
    else if word = VarKind.var.text then some (.var, renamed)
    else none
  | _ => none

/-- Functions of the runtime that are called for their value. -/
inductive RuntimeQuery where
  | get | equal
  deriving DecidableEq

/-- The function of the runtime that an expression names. -/
def runtimeQuery? : Expr → Option RuntimeQuery
  | .member (.ident c) "get" => if c = contextName then some .get else none
  | .member (.member (.ident c) "math") "__eq" => if c = contextName then some .equal else none
  | _ => none

/-- The value of an expression; `none` if it has none or is not covered. -/
def eval (M : ValueModel V) (R : Runtime V S) (m : Machine V S) : Expr → Option V
  | .ident name => m.env.read M.undefined name
  | .lit value => some (M.literal value)
  | .unary op arg => (eval M R m arg).bind (M.unary op)
  | .binary op left right =>
    (eval M R m left).bind fun a =>
      match op with
      | .and => if M.truthy a then eval M R m right else some a
      | .or => if M.truthy a then some a else eval M R m right
      | .nullish => if M.nullish a then eval M R m right else some a
      | op => (eval M R m right).bind fun b => M.operate op a b
  | .conditional test consequent alternate =>
    (eval M R m test).bind fun t => if M.truthy t then eval M R m consequent
      else eval M R m alternate
  | .call callee [first, second] =>
    if (m.env.lookup contextName).isSome then none
    else match runtimeQuery? callee with
      | some .get => (slotOf? first).bind fun (k, r) =>
        (eval M R m second).bind fun offset => R.get k r offset m.store
      | some .equal =>
        (eval M R m first).bind fun a => (eval M R m second).bind fun b => R.equal a b
      | none => none
  | _ => none

/-! ## Statements -/

/-- The names that a statement of a block declares, with the words that declare them. -/
def declaredBy : Stmt → List (String × VarKind)
  | .var kind decls => decls.flatMap fun d => d.id.boundNames.map (·, kind)
  | _ => []

/-- The names that a block declares. -/
def declaredIn (body : List Stmt) : List (String × VarKind) := body.flatMap declaredBy

/-- Run something with names opened for it, and close them again. -/
def inFrame (names : List (String × VarKind)) (run : Machine V S → Outcome V S)
    (m : Machine V S) : Outcome V S :=
  (run { m with env := Env.opened names ++ m.env }).map fun (m', seen) =>
    ({ m' with env := m'.env.drop names.length }, seen)

/-- The value that a declaration gives. -/
def initialValue (M : ValueModel V) (R : Runtime V S) (m : Machine V S) : Option Expr → Option V
  | some init => eval M R m init
  | none => some M.undefined

/-- Run the declaration of one name. -/
def runDeclarator (M : ValueModel V) (R : Runtime V S) (d : Declarator) (m : Machine V S) :
    Outcome V S :=
  match d.id with
  | .ident name =>
    (initialValue M R m d.init).map fun v => ({ m with env := m.env.write name v }, [.write v])
  | _ => none

/-- Run the declarations of several names. -/
def runDeclarators (M : ValueModel V) (R : Runtime V S) :
    List Declarator → Machine V S → Outcome V S
  | [], m => some (m, [])
  | d :: rest, m => (runDeclarator M R d m).andThen (runDeclarators M R rest)

/-- Write to a variable that has a value and may change. -/
def assignVariable (name : String) (m : Machine V S) (f : V → Option V) : Outcome V S :=
  match m.env.lookup name with
  | some ⟨kind, some old⟩ =>
    if kind = .constant then none
    else (f old).map fun v => ({ m with env := m.env.write name v }, [.write v])
  | _ => none

/-- What a runtime function that writes does. -/
def runtimeWrite? (R : Runtime V S) : Expr → Option (VarKind → String → V → S → S)
  | .member (.ident c) "init" => if c = contextName then some R.init else none
  | .member (.ident c) "set" => if c = contextName then some R.set else none
  | _ => none

/-- Write a value to a place of the store through the runtime. -/
def writeSlot (M : ValueModel V) (R : Runtime V S) (callee slot value : Expr) (m : Machine V S) :
    Outcome V S :=
  if (m.env.lookup contextName).isSome then none
  else (runtimeWrite? R callee).bind fun write =>
    (slotOf? slot).bind fun (k, r) =>
      (eval M R m value).map fun v => ({ m with store := write k r v m.store }, [.write v])

/-- Run an expression for its effect. -/
def perform (M : ValueModel V) (R : Runtime V S) : Expr → Machine V S → Outcome V S
  | .assign op (.ident name) value, m =>
    assignVariable name m fun old => (eval M R m value).bind fun v => M.assigned op old v
  | .assign .assign target (.call callee [slot, value]), m =>
    if (slotOf? target).isSome ∧ slotOf? target = slotOf? slot then
      writeSlot M R callee slot value m
    else none
  | .update op _ (.ident name), m => assignVariable name m (M.count op)
  | .call callee [slot, value], m => writeSlot M R callee slot value m
  | _, _ => none

/-- Run an expression for its effect if there is one. -/
def perform? (M : ValueModel V) (R : Runtime V S) : Option Expr → Machine V S → Outcome V S
  | none, m => some (m, [])
  | some e, m => perform M R e m

/-- The outcome of a test; a missing one holds. -/
def holds? (M : ValueModel V) (R : Runtime V S) (m : Machine V S) : Option Expr → Option Bool
  | none => some true
  | some e => (eval M R m e).map M.truthy

/-- Run something as often as a test holds, at most `fuel` times. -/
def runWhile (test : Machine V S → Option Bool) (step : Machine V S → Outcome V S) :
    (fuel : Nat) → Machine V S → Outcome V S
  | 0, _ => none
  | fuel + 1, m =>
    (test m).bind fun b =>
      if b then
        (Outcome.andThen (some (m, [.test true])) step).andThen (runWhile test step fuel)
      else some (m, [.test false])

mutual
/-- Run a statement; each loop in it may iterate less than `fuel` times. -/
def runStmt (M : ValueModel V) (R : Runtime V S) (fuel : Nat) :
    Stmt → Machine V S → Outcome V S
  | .var _ decls, m => runDeclarators M R decls m
  | .expr value, m => perform M R value m
  | .ifElse test consequent alternate, m =>
    (holds? M R m (some test)).bind fun b =>
      Outcome.andThen (some (m, [.test b])) fun m =>
        if b then inFrame (declaredBy consequent) (runStmt M R fuel consequent) m
        else runElse M R fuel alternate m
  | .whileLoop test body, m =>
    runWhile (holds? M R · (some test)) (inFrame (declaredBy body) (runStmt M R fuel body)) fuel m
  | .forLoop (some (.declare kind decls)) test update body, m =>
    inFrame (declaredBy (.var kind decls)) (fun m => (runDeclarators M R decls m).andThen fun m =>
        runWhile (holds? M R · test)
          (fun m => (inFrame (declaredBy body) (runStmt M R fuel body) m).andThen
            (perform? M R update)) fuel m) m
  | .block body, m => inFrame (declaredIn body) (runStmts M R fuel body) m
  | .empty, m => some (m, [])
  | _, _ => none

/-- Run what stands after `else`. -/
def runElse (M : ValueModel V) (R : Runtime V S) (fuel : Nat) :
    Option Stmt → Machine V S → Outcome V S
  | none, m => some (m, [])
  | some stmt, m => inFrame (declaredBy stmt) (runStmt M R fuel stmt) m

/-- Run statements in order. -/
def runStmts (M : ValueModel V) (R : Runtime V S) (fuel : Nat) :
    List Stmt → Machine V S → Outcome V S
  | [], m => some (m, [])
  | stmt :: rest, m => (runStmt M R fuel stmt m).andThen (runStmts M R fuel rest)
end

/-- Run the body of a unit from a store.  The names that it declares stay open, so that their last
values can be seen. -/
def runBody (M : ValueModel V) (R : Runtime V S) (fuel : Nat) (body : List Stmt) (store : S) :
    Outcome V S :=
  runStmts M R fuel body ⟨Env.opened (declaredIn body), store⟩

/-- `{ let x = null; }` writes one value and leaves no name open. -/
example (M : ValueModel V) (R : Runtime V S) (store : S) :
    runBody M R 1 [.block [.var .lexical [⟨.ident "x", some (.lit .null)⟩]]] store =
      some (⟨[], store⟩, [.write (M.literal .null)]) :=
  rfl

end IndicatorCompiler.Script
