import IndicatorCompiler.Lowering.Name
import IndicatorCompiler.Pine.Grammar.Statement
import IndicatorCompiler.Pine.Token.Lexeme

/-!
# Leaves of indicator trees

What matters of an indicator tree to the text that it is lowered to are its names and numbers, and
what stands in front of a point or of an assignment.  `leaves` lists these, so that a property of
the whole tree is one of every leaf.
-/

namespace IndicatorCompiler.Pine

/-- Letters, digits and underscores, and no digit in front. -/
def isWord (text : String) : Bool :=
  match text.toList with
  | [] => false
  | c :: rest => startsName c && rest.all continuesName

/-- What a tree is made of. -/
inductive Leaf where
  /-- A name that is bound or used. -/
  | name (name : String)
  /-- The name of a member, an argument or a field. -/
  | property (name : String)
  | number (value : Number.Double)
  /-- A member is accessed, of a numeral or of anything else. -/
  | access (numeral : Bool)
  /-- Something is assigned to that can, or cannot, be assigned to. -/
  | target (assignable : Bool)
  deriving DecidableEq

/-- A literal of digits. -/
def Expr.isNumeral : Expr → Bool
  | .int _ => true
  | .float _ => true
  | _ => false

/-- The names that a declaration binds. -/
def DeclTarget.names : DeclTarget → List String
  | name n => [n]
  | tuple ns => ns

/-- The names that a loop over a collection binds. -/
def ForTarget.names : ForTarget → List String
  | name n => [n]
  | pair index value => [index, value]

/-- A loop over pairs accesses a member of its collection. -/
def ForTarget.access (iterable : Expr) : ForTarget → List Leaf
  | name _ => []
  | pair _ _ => [.access iterable.isNumeral]

mutual
/-- The leaves of an expression. -/
def Expr.leaves : Expr → List Leaf
  | .ident name => [.name name]
  | .float value => [.number value]
  | .int _ | .str _ | .bool _ | .color _ | .na => []
  | .binary _ left right => left.leaves ++ right.leaves
  | .unary _ operand => operand.leaves
  | .ternary test consequent alternate => test.leaves ++ consequent.leaves ++ alternate.leaves
  | .call callee _ args => callee.leaves ++ argumentLeaves args
  | .member base property => .access base.isNumeral :: .property property :: base.leaves
  | .history target offset => target.leaves ++ offset.leaves
  | .tuple items => exprLeaves items
  | .conditional branches otherwise _ =>
    branchLeaves branches ++ (match otherwise with
        | none => []
        | some body => stmtLeaves body)
  | .switch discriminant cases _ =>
    (match discriminant with
      | none => []
      | some value => value.leaves) ++ caseLeaves cases

/-- The leaves of several expressions. -/
def exprLeaves : List Expr → List Leaf
  | [] => []
  | value :: rest => value.leaves ++ exprLeaves rest

/-- The leaves of an expression, if there is one. -/
def optionLeaves : Option Expr → List Leaf
  | none => []
  | some value => value.leaves

/-- The leaves of arguments. -/
def argumentLeaves : List Argument → List Leaf
  | [] => []
  | ⟨name, value⟩ :: rest => name.toList.map .property ++ value.leaves ++ argumentLeaves rest

/-- The leaves of branches. -/
def branchLeaves : List Branch → List Leaf
  | [] => []
  | ⟨test, body⟩ :: rest => test.leaves ++ stmtLeaves body ++ branchLeaves rest

/-- The leaves of cases. -/
def caseLeaves : List Case → List Leaf
  | [] => []
  | ⟨test, body⟩ :: rest => optionLeaves test ++ stmtLeaves body ++ caseLeaves rest

/-- The leaves of parameters. -/
def paramLeaves : List Param → List Leaf
  | [] => []
  | ⟨name, _, default⟩ :: rest => .name name :: (optionLeaves default ++ paramLeaves rest)

/-- The leaves of fields. -/
def fieldLeaves : List Field → List Leaf
  | [] => []
  | ⟨name, _, default⟩ :: rest => .property name :: (optionLeaves default ++ fieldLeaves rest)

/-- The leaves of a statement. -/
def StmtKind.leaves : StmtKind → List Leaf
  | .varDecl _ _ target init => target.names.map .name ++ init.leaves
  | .reassign target _ value =>
    .target (Grammar.isAssignable target) :: (target.leaves ++ value.leaves)
  | .function name _ params body _ => .name name :: (paramLeaves params ++ stmtLeaves body)
  | .typeDecl name fields _ => .name name :: fieldLeaves fields
  | .ifElse test body otherwise => test.leaves ++ stmtLeaves body ++ stmtLeaves otherwise
  | .forRange counter start stop step body =>
    .name counter :: (start.leaves ++ stop.leaves ++ optionLeaves step ++ stmtLeaves body)
  | .forIn target iterable body =>
    target.names.map .name ++ target.access iterable ++ iterable.leaves ++ stmtLeaves body
  | .whileLoop test body => test.leaves ++ stmtLeaves body
  | .ret value => optionLeaves value
  | .breakLoop | .continueLoop => []
  | .expr value => value.leaves

/-- The leaves of several statements. -/
def stmtLeaves : List Stmt → List Leaf
  | [] => []
  | ⟨kind, _⟩ :: rest => kind.leaves ++ stmtLeaves rest
end

end IndicatorCompiler.Pine
