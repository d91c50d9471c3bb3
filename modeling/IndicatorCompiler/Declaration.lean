import IndicatorCompiler.Script.Print

/-!
# The declaration of a unit

A unit declares what it is by calling `indicator`, `strategy` or `library` at its top.  Positional
arguments are named after the first signature that they fit: one with enough places, where every
literal has the type of its place.  A trailing object gives arguments by name.
-/

namespace IndicatorCompiler.Declaration

open Script

/-- What a unit can declare itself to be. -/
inductive DeclarationKind where
  | indicator | strategy | library
  deriving DecidableEq, Repr

namespace DeclarationKind

/-- The function that declares the kind. -/
def text : DeclarationKind → String
  | indicator => "indicator"
  | strategy => "strategy"
  | library => "library"

/-- The kind that a function declares. -/
def ofCallee? : String → Option DeclarationKind
  | "indicator" => some indicator
  | "strategy" => some strategy
  | "library" => some library
  | _ => none

end DeclarationKind

/-- Types of arguments. -/
inductive ArgType where
  | str | num | bool
  /-- Any type; also that of an argument that is no literal. -/
  | any
  deriving DecidableEq, Repr

/-- A place of one type takes an argument of another. -/
def ArgType.accepts (place arg : ArgType) : Bool := place = .any || arg = .any || place = arg

/-- The places of a declaring function: names and types. -/
abbrev Signature := List (String × ArgType)

/-- The short form that indicators and strategies have in common. -/
def shortSignature : Signature := [("title", .str), ("overlay", .bool)]

/-- The places of `indicator`. -/
def indicatorSignature : Signature :=
  [("title", .str), ("shorttitle", .str), ("overlay", .bool), ("format", .str),
    ("precision", .num), ("scale", .any), ("max_bars_back", .num), ("timeframe", .str),
    ("timeframe_gaps", .bool), ("explicit_plot_zorder", .bool), ("max_lines_count", .num),
    ("max_labels_count", .num), ("max_boxes_count", .num)]

/-- The places of `strategy`. -/
def strategySignature : Signature :=
  [("title", .str), ("shorttitle", .str), ("overlay", .bool), ("format", .str),
    ("precision", .num), ("scale", .any), ("pyramiding", .num), ("calc_on_order_fills", .bool),
    ("calc_on_every_tick", .bool), ("max_bars_back", .num),
    ("backtest_fill_limits_assumption", .num), ("default_qty_type", .any),
    ("default_qty_value", .num), ("initial_capital", .num), ("currency", .any)]

/-- The places of `library`. -/
def librarySignature : Signature :=
  [("title", .str), ("overlay", .bool), ("dynamic_requests", .bool)]

/-- The signatures of a kind, in the order in which they are tried. -/
def DeclarationKind.signatures : DeclarationKind → List Signature
  | indicator => [indicatorSignature, shortSignature]
  | strategy => [strategySignature, shortSignature]
  | library => [librarySignature]

/-- The value of an argument. -/
inductive ArgValue where
  | str (value : String)
  | num (value : Number.Double)
  | bool (value : Bool)
  /-- Anything but a literal, as it is printed. -/
  | expr (text : String)
  deriving DecidableEq

namespace ArgValue

/-- The value of an expression; a number may have a minus sign. -/
def ofExpr : Expr → ArgValue
  | .lit (.str value) => str value
  | .lit (.num value) => num value
  | .lit (.bool value) => bool value
  | .unary .neg (.lit (.num value)) => num value.neg
  | e => expr e.print

/-- The type of a value. -/
def type : ArgValue → ArgType
  | str _ => .str
  | num _ => .num
  | bool _ => .bool
  | expr _ => .any

end ArgValue

/-- What a unit declares itself to be. -/
structure UnitDeclaration where
  kind : DeclarationKind
  /-- Arguments by name, each name once. -/
  args : List (String × ArgValue)
  deriving DecidableEq

namespace UnitDeclaration

/-- The title, if it is a text. -/
def title? (d : UnitDeclaration) : Option String :=
  match d.args.lookup "title" with
  | some (.str title) => some title
  | _ => none

/-- Whether the unit is drawn over the chart, if that is said plainly. -/
def overlay? (d : UnitDeclaration) : Option Bool :=
  match d.args.lookup "overlay" with
  | some (.bool overlay) => some overlay
  | _ => none

end UnitDeclaration

/-- Set an argument; an earlier value of it is lost. -/
def setArg (args : List (String × ArgValue)) (arg : String × ArgValue) : List (String × ArgValue) :=
  args.filter (fun other => other.1 != arg.1) ++ [arg]

/-- The values fit a signature. -/
def fits (values : List ArgValue) (signature : Signature) : Bool :=
  values.length ≤ signature.length &&
    (values.zip signature).all fun (value, place) => place.2.accepts value.type

/-- Positional arguments with their names; none if no signature fits. -/
def positionalArgs (kind : DeclarationKind) (values : List ArgValue) : List (String × ArgValue) :=
  match kind.signatures.find? (fits values) with
  | none => []
  | some signature => (values.zip signature).map fun (value, place) => (place.1, value)

/-- The arguments that an object gives by name; computed names do not count. -/
def namedArgs (properties : List Property) : List (String × ArgValue) :=
  properties.filterMap fun
    | ⟨.name key, value, _⟩ | ⟨.str key, value, _⟩ => some (key, .ofExpr value)
    | ⟨.computed _, _, _⟩ => none

/-- The declaration that a call makes. -/
def ofCall (kind : DeclarationKind) (args : List Expr) : UnitDeclaration :=
  let (positional, named) := match args.getLast? with
    | some (.object properties) => (args.dropLast, namedArgs properties)
    | _ => (args, [])
  ⟨kind, (positionalArgs kind (positional.map .ofExpr) ++ named).foldl setArg []⟩

/-- The declaration that a statement makes. -/
def ofStmt? : Stmt → Option UnitDeclaration
  | .expr (.call (.ident name) args) => (DeclarationKind.ofCallee? name).map (ofCall · args)
  | _ => none

/-- The first declaration among the statements at the top of a unit. -/
def find? (body : List Stmt) : Option UnitDeclaration := body.findSome? ofStmt?

end IndicatorCompiler.Declaration
