import IndicatorCompiler.Proofs.Evaluation

/-!
# Bodies that keep their meaning

`Slottable` describes bodies of single-name declarations, assignments in statement position,
branches, loops, blocks and counting loops over pure expressions, in which every name is declared
before it is used.  The check goes through a body with the names in scope, the innermost first, and
with whether the declaration of each has run.
-/

namespace IndicatorCompiler.Script

/-! ## Names in scope -/

/-- A name in scope: what it is, and whether its declaration has run. -/
structure Standing (ρ : Type) where
  role : ρ
  opened : Bool
  deriving DecidableEq

/-- Names in scope, the innermost first. -/
abbrev InScope (ρ : Type) := List (String × Standing ρ)

namespace InScope

variable {ρ σ : Type}

/-- The declaration of a name runs: the innermost one is open from now on. -/
def opening (name : String) : InScope ρ → InScope ρ
  | [] => []
  | (x, st) :: rest =>
    if x = name then (x, { st with opened := true }) :: rest else (x, st) :: opening name rest

/-- The declarations of several names run. -/
def openingAll (names : List (String × VarKind)) (Γ : InScope ρ) : InScope ρ :=
  names.foldl (fun Γ x => Γ.opening x.1) Γ

/-- The names without where they live. -/
def mapRole (f : ρ → σ) (Γ : InScope ρ) : InScope σ :=
  Γ.map fun (x, st) => (x, ⟨f st.role, st.opened⟩)

/-- The names in scope with their roles. -/
def roles (Γ : InScope ρ) : List (String × ρ) := Γ.map fun (x, st) => (x, st.role)

end InScope

/-- What a declared name is. -/
inductive Role where
  /-- The counter of a counting loop. -/
  | counter
  /-- A variable of a block. -/
  | declared (kind : VarKind)
  deriving DecidableEq

/-- The value may change. -/
def Role.changes : Role → Bool
  | counter => true
  | declared kind => kind != .constant

namespace InScope

/-- A block is entered: its names are in scope, and none is open. -/
def enter (names : List (String × VarKind)) (Γ : InScope Role) : InScope Role :=
  (names.map fun (x, kind) => (x, ⟨.declared kind, false⟩)) ++ Γ

/-- A counting loop is entered. -/
def enterLoop (names : List (String × VarKind)) (Γ : InScope Role) : InScope Role :=
  (names.map fun (x, _) => (x, ⟨.counter, false⟩)) ++ Γ

/-- The name can be read. -/
def readable (Γ : InScope Role) (name : String) : Bool := (Γ.lookup name).any (·.opened)

/-- The name can be assigned to. -/
def assignable (Γ : InScope Role) (name : String) : Bool :=
  (Γ.lookup name).any fun st => st.opened && st.role.changes

/-- The name is a counter and can be counted up or down. -/
def countable (Γ : InScope Role) (name : String) : Bool := Γ.lookup name = some ⟨.counter, true⟩

end InScope

/-- The names are different from each other and from those of the context. -/
def properNames (root : String) (names : List (String × VarKind)) : Bool :=
  decide (names.map (·.1)).Nodup && names.all fun (x, _) => x != contextName && x != root

/-! ## Expressions and statements -/

/-- Operators in front of an operand that work on its value. -/
def UnaryOp.isArithmetic : UnaryOp → Bool
  | .neg | .plus | .not => true
  | _ => false

/-- A pure expression over names that can be read. -/
def pureOver (Γ : InScope Role) : Expr → Bool
  | .ident name => Γ.readable name
  | .lit _ => true
  | .unary op arg => op.isArithmetic && pureOver Γ arg
  | .binary _ left right => pureOver Γ left && pureOver Γ right
  | .conditional test consequent alternate =>
    pureOver Γ test && pureOver Γ consequent && pureOver Γ alternate
  | _ => false

/-- A pure expression, or none. -/
def pureOver? (Γ : InScope Role) : Option Expr → Bool
  | none => true
  | some e => pureOver Γ e

/-- An assignment, or counting a counter up or down. -/
def assigns (Γ : InScope Role) : Expr → Bool
  | .assign _ (.ident name) value => Γ.assignable name && pureOver Γ value
  | .update _ _ (.ident name) => Γ.countable name
  | _ => false

/-- An assignment, or none. -/
def assigns? (Γ : InScope Role) : Option Expr → Bool
  | none => true
  | some e => assigns Γ e

/-- Declarations of single names; each value may use the names before it. -/
def declares (Γ : InScope Role) : List Declarator → Bool
  | [] => true
  | ⟨.ident name, init⟩ :: rest => pureOver? Γ init && declares (Γ.opening name) rest
  | _ => false

mutual
/-- The statement is covered where names are in scope. -/
def covers (root : String) (Γ : InScope Role) : Stmt → Bool
  | .var kind decls => kind != .var && declares Γ decls
  | .expr value => assigns Γ value
  | .ifElse test consequent alternate =>
    pureOver Γ test && properNames root (declaredBy consequent) &&
      covers root (Γ.enter (declaredBy consequent)) consequent && coversElse root Γ alternate
  | .whileLoop test body =>
    pureOver Γ test && properNames root (declaredBy body) &&
      covers root (Γ.enter (declaredBy body)) body
  | .forLoop (some (.declare .lexical decls)) test update body =>
    let counters := declaredBy (.var .lexical decls)
    let Γ' := (Γ.enterLoop counters).openingAll counters
    properNames root counters && declares (Γ.enterLoop counters) decls &&
      pureOver? Γ' test && assigns? Γ' update && properNames root (declaredBy body) &&
      covers root (Γ'.enter (declaredBy body)) body
  | .block body =>
    properNames root (declaredIn body) && coversAll root (Γ.enter (declaredIn body)) body
  | .empty => true
  | _ => false

/-- What stands after `else` is covered. -/
def coversElse (root : String) (Γ : InScope Role) : Option Stmt → Bool
  | none => true
  | some stmt => properNames root (declaredBy stmt) && covers root (Γ.enter (declaredBy stmt)) stmt

/-- The statements of a block are covered; each may use what the ones before it declare. -/
def coversAll (root : String) (Γ : InScope Role) : List Stmt → Bool
  | [] => true
  | stmt :: rest => covers root Γ stmt && coversAll root (Γ.openingAll (declaredBy stmt)) rest
end

/-- The body of a unit is covered; `root` is the spelling of the context parameter. -/
def Slottable (root : String) (body : List Stmt) : Bool :=
  properNames root (declaredIn body) && coversAll root (InScope.enter (declaredIn body) []) body

/-- `let y = null; while (y) { y = y; }` -/
example : Slottable contextName [.var .lexical [⟨.ident "y", some (.lit .null)⟩],
    .whileLoop (.ident "y") (.block [.expr (.assign .assign (.ident "y") (.ident "y"))])] =
      true := by
  rfl

/-! ## Captured undefined values -/

/-- The declaration gives every name a value. -/
def givesValues (decls : List Declarator) : Bool := decls.all (·.init.isSome)

/-- Some name is that of the undefined value. -/
def namesUndefined (names : List (String × VarKind)) : Bool := names.any (·.1 = "undefined")

mutual
/-- No declaration without a value stands inside a loop whose counter hides the undefined value;
`hidden` says that a loop around the statement has such a counter. -/
def sparesUndefined (hidden : Bool) : Stmt → Bool
  | .var _ decls => !hidden || givesValues decls
  | .ifElse _ consequent alternate =>
    sparesUndefined hidden consequent && sparesUndefinedElse hidden alternate
  | .whileLoop _ body => sparesUndefined hidden body
  | .forLoop (some (.declare kind decls)) _ _ body =>
    sparesUndefined (hidden || namesUndefined (declaredBy (.var kind decls))) body
  | .block body => sparesUndefinedAll hidden body
  | _ => true

/-- The same for what stands after `else`. -/
def sparesUndefinedElse (hidden : Bool) : Option Stmt → Bool
  | none => true
  | some stmt => sparesUndefined hidden stmt

/-- The same for all statements of a block. -/
def sparesUndefinedAll (hidden : Bool) : List Stmt → Bool
  | [] => true
  | stmt :: rest => sparesUndefined hidden stmt && sparesUndefinedAll hidden rest
end

/-- `for (let undefined = null;;) { let x; }` -/
example : sparesUndefinedAll false [.forLoop
    (some (.declare .lexical [⟨.ident "undefined", some (.lit .null)⟩])) none none
    (.block [.var .lexical [⟨.ident "x", none⟩]])] = false :=
  rfl

end IndicatorCompiler.Script
