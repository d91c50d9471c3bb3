import IndicatorCompiler.Pine.Syntax

/-!
# Branches

An `if` with its `else if`s has two shapes.  As a statement it is nested, the rest of the chain
standing alone in the `else` part; as a value it is a list of branches.  `ifChain` and `nestedIf` go
between the two.  A value whose branches are all single expressions is a chain of ternaries; any
other value has to be lifted into statements.
-/

namespace IndicatorCompiler.Pine

/-! ## Lifting -/

namespace Expr

/-- The value has to be lifted into statements. -/
def needsLifting : Expr → Bool
  | .conditional _ _ lifts => lifts
  | .switch _ _ lifts => lifts
  | _ => false

end Expr

/-- A body has to be lifted, unless it is one expression that need not be. -/
def bodyNeedsLifting : List Stmt → Bool
  | [⟨.expr value, _⟩] => value.needsLifting
  | _ => true

/-- The expression that a body of one statement is. -/
def singleExpr? : List Stmt → Option Expr
  | [⟨.expr value, _⟩] => some value
  | _ => none

/-! ## Nested and flat chains -/

/-- The branches of a nested `if` and its last `else`. -/
def ifChain (test : Expr) (body : List Stmt) : List Stmt → List Branch × Option (List Stmt)
  | [⟨.ifElse test' body' otherwise, _⟩] =>
    let (branches, last) := ifChain test' body' otherwise
    (⟨test, body⟩ :: branches, last)
  | [] => ([⟨test, body⟩], none)
  | otherwise => ([⟨test, body⟩], some otherwise)

/-- The nested `if` of a chain of branches, all on one line. -/
def nestedIf (line : Nat) (first : Branch) (more : List Branch) (last : List Stmt) : StmtKind :=
  match more with
  | [] => .ifElse first.test first.body last
  | next :: rest => .ifElse first.test first.body [⟨nestedIf line next rest last, line⟩]

/-- The chain of ternaries that branches of single expressions are; without an `else` it ends in
`na`. -/
def ternaryChain (branches : List Branch) (last : Option (List Stmt)) : Expr :=
  branches.foldr
    (fun branch alternate => .ternary branch.test ((singleExpr? branch.body).getD .na) alternate)
    ((last.bind singleExpr?).getD .na)

/-- `if` as a value. -/
def ifValue (branches : List Branch) (last : Option (List Stmt)) : Expr :=
  if branches.any (fun branch => bodyNeedsLifting branch.body) || last.any bodyNeedsLifting then
    .conditional branches last true
  else ternaryChain branches last

/-- `switch` as a value. -/
def switchValue (discriminant : Option Expr) (cases : List Case) : Expr :=
  .switch discriminant cases (cases.any fun case => bodyNeedsLifting case.body)

/-! ## The result of a function -/

/-- The value of what a declaration binds. -/
def DeclTarget.value : DeclTarget → Expr
  | name n => .ident n
  | tuple names => .tuple (names.map .ident)

/-- What the last statement of a function body becomes: its value is the result. -/
def withResult (last : Stmt) : List Stmt :=
  let result (value : Expr) : Stmt := ⟨.ret (some value), last.line⟩
  match last.kind with
  | .expr value => [result value]
  | .ifElse test body otherwise =>
    let (branches, orElse) := ifChain test body otherwise
    [result (ifValue branches orElse)]
  | .varDecl _ _ target _ => [last, result target.value]
  | .reassign target _ _ => [last, result target]
  | _ => [last]

/-- A function body with its result returned. -/
def functionBody : List Stmt → List Stmt
  | [] => []
  | [last] => withResult last
  | stmt :: rest => stmt :: functionBody rest

end IndicatorCompiler.Pine
