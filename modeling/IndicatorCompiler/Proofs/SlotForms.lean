import IndicatorCompiler.Proofs.SlotName
import IndicatorCompiler.Proofs.Walks

/-!
# What slot forms look like

The rules say what a walk can do to a tree: which slot form it makes of it from which state, and in
which state it ends.  What is true of slot forms is shown along the rules; that walks follow them is
shown once, in `SlotWalks`.
-/

namespace IndicatorCompiler.SlotForm

open Script

/-! ## States -/

/-- The statement is put in front of the one that is being walked. -/
def Hoists (stmt : Stmt) (w w' : Walk) : Prop :=
  ∃ first rest, w.hoisted = first :: rest ∧ w' = { w with hoisted := (first ++ [stmt]) :: rest }

theorem walks_hoist_iff {stmt ancestors w w' a} :
    Succeeds (hoist stmt ancestors) w a w' ↔ Hoists stmt w w' := by
  simp only [hoist, succeeds_get_bind_iff]
  split
  · rename_i hnil
    simp [Hoists, hnil]
  · rename_i first rest hcons
    simp [Hoists, hcons, and_assoc]

/-- What was hoisted in front of the current statement is taken. -/
def Walk.taken (w : Walk) : Walk :=
  { w with hoisted := match w.hoisted with
      | [] => []
      | _ :: rest => [] :: rest }

/-! ## Destructurings -/

/-- An expression that accesses a member. -/
def isAccess : Expr → Bool
  | .member _ _ => true
  | .index _ _ => true
  | _ => false

mutual
/-- The assignments that a destructuring of `whole` stands for. -/
inductive Parts : Expr → Expr → List Expr → Prop
  | name (whole : Expr) (x : String) : Parts whole (.ident x) [.assign .assign (.ident x) whole]
  | array {whole es parts} : ItemParts whole 0 es parts →
    Parts whole (.array es) parts
  | object {whole ps parts} : PropertyParts whole ps parts →
    Parts whole (.object ps) parts
  | withDefault {whole target value parts} : Parts (.binary .nullish whole value) target parts →
    Parts whole (.assign .assign target value) parts

/-- The assignments that the elements from a position on stand for. -/
inductive ItemParts : Expr → Nat → List Expr → List Expr → Prop
  | nil (whole : Expr) (i : Nat) : ItemParts whole i [] []
  | item {whole e i es first rest} :
    Parts (.index whole (.nat i)) e first → ItemParts whole (i + 1) es rest →
    ItemParts whole i (e :: es) (first ++ rest)
  | rest {whole e i es first rest} :
    Parts (.call (.member whole "slice") [.nat i]) e first → ItemParts whole (i + 1) es rest →
    ItemParts whole i (.spread e :: es) (first ++ rest)

/-- The assignments that properties stand for. -/
inductive PropertyParts : Expr → List Property → List Expr → Prop
  | nil (whole : Expr) : PropertyParts whole [] []
  | cons {whole value key x shorthand ps first rest} : key = .name x ∨ key = .str x →
    Parts (.member whole x) value first → PropertyParts whole ps rest →
    PropertyParts whole (⟨key, value, shorthand⟩ :: ps) (first ++ rest)
end

/-! ## Names that are made on the way -/

/-- An identity as the running code computes it. -/
def identity (s : Scopes) (id : String) : Expr :=
  if s.insideUserFunction then .binary .add (contextCall "peekCallId" []) (.str id) else .str id

/-- A temporary for a constant. -/
def constantTemp (s : Scopes) : String × Scopes :=
  (s.generateTemp.1, s.generateTemp.2.addTemp s.generateTemp.1)

/-- The slot of a temporary whose history is kept. -/
def seriesSlot (s : Scopes) : String × Scopes := s.generateTemp.2.addSeriesTemp s.generateTemp.1

/-- A name for a capture. -/
def captureTemp (s : Scopes) : String × Scopes :=
  (s.generateParam.1, s.generateParam.2.addTemp s.generateParam.1)

/-- The statement `const x = init`. -/
abbrev constant (x : String) (init : Expr) : Stmt := .var .constant [⟨.ident x, some init⟩]

/-- A name is passed on with its history. -/
def argumentPosition : Expr → Position
  | .ident _ => .handle
  | _ => .value

/-- The statements of the body of a loop or a branch. -/
def asList : Stmt → List Stmt
  | .block body => body
  | .empty => []
  | stmt => [stmt]

/-- The statements of the body of a function; the value of an arrow is returned. -/
def bodyStmts : FunctionBody → List Stmt
  | .block body => body
  | .expr value => [.ret (some value)]

/-! ## Slot forms -/

/-- Parts of a tree, and what a walk makes of them. -/
inductive Form where
  | expr (position : Position) (e out : Expr)
  /-- Each at its position. -/
  | exprs (position : Expr → Position) (es outs : List Expr)
  /-- The value of an expression that may be missing. -/
  | expr? (e out : Option Expr)
  | properties (ps outs : List Property)
  | key (key out : PropertyKey)
  /-- What the capture of an expression reads: a source, and how far back. -/
  | source (e out lookback : Expr)
  /-- Arguments of a stateful library. -/
  | captures (library : String) (es outs : List Expr)
  | function (frame : Frame) (f out : Function)
  | params (ps outs : List Pattern)
  | stmt (stmt : Stmt) (outs : List Stmt)
  /-- Each behind what was hoisted in front of it. -/
  | stmts (stmts outs : List Stmt)
  /-- A list of statements with hoisted statements of its own. -/
  | block (stmts outs : List Stmt)
  /-- A list of statements in a scope of its own. -/
  | scope (kind : ScopeKind) (stmts outs : List Stmt)
  | declarators (kind : VarKind) (ds : List Declarator) (outs : List Stmt)
  | declarator (kind : VarKind) (d : Declarator) (out : Stmt)
  /-- The start of a counting loop. -/
  | init? (init out : Option ForInit)
  /-- The bindings of a counting loop. -/
  | bindings (ds outs : List Declarator)

/-- The parts have the slot forms, in a walk from one state to another. -/
inductive Formed : Form → Walk → Walk → Prop
  | ident (position : Position) (x : String) (w : Walk) :
    Formed (.expr position (.ident x) (Operand.nameAt x (w.scopes.resolve x) position)) w w
  | lit (position : Position) (value : Literal) (w : Walk) :
    Formed (.expr position (.lit value) (.lit value)) w w
  | array {position es outs w w'} :
    Formed (.exprs (fun _ => .value) es outs) w w' →
    Formed (.expr position (.array es) (.array outs)) w w'
  | sequence {position es outs w w'} : Formed (.exprs (fun _ => .value) es outs) w w' →
    Formed (.expr position (.sequence es) (.sequence outs)) w w'
  | object {position ps outs w w'} :
    Formed (.properties ps outs) w w' → Formed (.expr position (.object ps) (.object outs)) w w'
  | function {position f g w w'} :
    Formed (.function .inline f g) w w' → Formed (.expr position (.function f) (.function g)) w w'
  | unary {position} (op : UnaryOp) {e out w w'} :
    Formed (.expr .value e out) w w' → Formed (.expr position (.unary op e) (.unary op out)) w w'
  | spread {position e out w w'} :
    Formed (.expr .value e out) w w' → Formed (.expr position (.spread e) (.spread out)) w w'
  | binary {position} (op : BinaryOp) {l l' r r' w w₁ w₂} :
    Formed (.expr .value l l') w w₁ → Formed (.expr .value r r') w₁ w₂ →
    Formed (.expr position (.binary op l r) (Operand.combined op l' r')) w w₂
  | conditional {position t t' c c' a a' w w₁ w₂ w₃} :
    Formed (.expr .value t t') w w₁ → Formed (.expr .value c c') w₁ w₂ →
    Formed (.expr .value a a') w₂ w₃ →
    Formed (.expr position (.conditional t c a) (.conditional t' c' a')) w w₃
  | new {position f f' es outs w w₁ w₂} :
    Formed (.expr .callee f f') w w₁ → Formed (.exprs (fun _ => .value) es outs) w₁ w₂ →
    Formed (.expr position (.new f es) (.new f' outs)) w w₂
  | member {position e out w w'} (x : String) :
    Formed (.expr .memberObject e out) w w' →
    Formed (.expr position (.member e x) (.member out x)) w w'
  /-- A string is the key of a property. -/
  | key {position e i out w w'} : i.isString = true →
    Formed (.expr .memberObject e out) w w' →
    Formed (.expr position (.index e i) (.index out i)) w w'
  /-- An element is written, or a name without a history is indexed. -/
  | element {position e i e' i' w w₁ w₂} : position = .target ∨ e.ident?.isSome = true →
    Formed (.expr .value i i') w w₁ → Formed (.expr .memberObject e e') w₁ w₂ →
    Formed (.expr position (.index e i) (.index e' i')) w w₂
  /-- The history of a name is read. -/
  | history {position x i i' w w₁} : position ≠ .target →
    Formed (.expr .value i i') w w₁ → hasHistory (w₁.scopes.resolve x) = true →
    Formed (.expr position (.index (.ident x) i)
      (readAt (Operand.nameAt x (w₁.scopes.resolve x) .handle) i')) w w₁
  /-- So is that of what hangs off the context. -/
  | rooted {position e i e' i' w w₁ w₂} : position ≠ .target →
    e.ident? = none → i.isString = false → Formed (.expr .value i i') w w₁ →
    isContextRooted w₁.scopes.rootName e = true →
    Formed (.expr .memberObject e e') w₁ w₂ →
    Formed (.expr position (.index e i) (readAt e' i')) w w₂
  /-- Any other expression is kept in a slot first. -/
  | series {position e i e' i' w w₁ w₂ w₃} : position ≠ .target →
    e.ident? = none → i.isString = false → Formed (.expr .value i i') w w₁ →
    Formed (.expr .value e e') w₁ w₂ →
    Hoists (initSlot "init" (slotRef .lexical (seriesSlot w₂.scopes).1) e')
      { w₂ with scopes := (seriesSlot w₂.scopes).2 } w₃ →
    Formed (.expr position (.index e i)
      (readAt (slotRef .lexical (seriesSlot w₂.scopes).1) i')) w w₃
  | userCall {position f es outs w w'} :
    isUserCall w.scopes f = true → Formed (.exprs argumentPosition es outs) w w' →
    Formed (.expr position (.call (.ident f) es) (contextCall "call" (.ident f ::
        identity w'.scopes (w'.scopes.generateCall userCallStem).1 :: outs)))
      w { w' with scopes := (w'.scopes.generateCall userCallStem).2 }
  | libraryCall {position library f f' es outs w w₁ w₂} :
    statefulLibrary? w.scopes f = some library →
    Formed (.expr .callee f f') w w₁ → Formed (.captures library es outs) w₁ w₂ →
    Formed (.expr position (.call f es)
      (.call f' (outs ++ [identity w₂.scopes (w₂.scopes.generateCall library).1])))
      w { w₂ with scopes := (w₂.scopes.generateCall library).2 }
  | call {position f f' es outs w w₁ w₂} :
    f.ident?.all (isUserCall w.scopes · = false) = true → statefulLibrary? w.scopes f = none →
    Formed (.expr .callee f f') w w₁ → Formed (.exprs (fun _ => .value) es outs) w₁ w₂ →
    Formed (.expr position (.call f es) (.call f' outs)) w w₂
  | setSlot {position} (op : AssignOp) {x renamed kind e out w w'} :
    w.scopes.resolve x = .slot renamed kind → Formed (.expr .value e out) w w' →
    Formed (.expr position (.assign op (.ident x) e)
      (contextCall "set" [slotRef kind renamed, match op.arithmetic? with
        | some arithmetic => .binary arithmetic (readNow (slotRef kind renamed)) out
        | none => out])) w w'
  | assign {position} (op : AssignOp) (x : String) {e out w w'} :
    (∀ renamed kind, w.scopes.resolve x ≠ .slot renamed kind) → Formed (.expr .value e out) w w' →
    Formed (.expr position (.assign op (.ident x) e) (.assign op (.ident x) out)) w w'
  | assignMember {position} (op : AssignOp) {t t' e e' w w₁ w₂} :
    isAccess t = true → Formed (.expr .target t t') w w₁ → Formed (.expr .value e e') w₁ w₂ →
    Formed (.expr position (.assign op t e) (.assign op t' e')) w w₂
  | destructure {position t e out parts outs w w₁ w₂ w₃} : Formed (.expr .value e out) w w₁ →
    Hoists (constant (constantTemp w₁.scopes).1 out)
    { w₁ with scopes := (constantTemp w₁.scopes).2 } w₂ →
    t.ident? = none → Parts (.ident (constantTemp w₁.scopes).1) t parts →
    Formed (.exprs (fun _ => .value) parts outs) w₂ w₃ →
    Formed (.expr position (.assign .assign t e) (writesExpr outs)) w w₃
  | updateSlot {position} (op : UpdateOp) (prefixed : Bool) {x renamed kind w} :
    w.scopes.resolve x = .slot renamed kind →
    Formed (.expr position (.update op prefixed (.ident x))
      (contextCall "set" [slotRef kind renamed,
      .binary (updateArithmetic op) (readNow (slotRef kind renamed)) (.nat 1)])) w w
  | update {position} (op : UpdateOp) (prefixed : Bool) {e out w w'} :
    Formed (.expr .target e out) w w' →
    Formed (.expr position (.update op prefixed e) (.update op prefixed out)) w w'
  | noExprs (position : Expr → Position) (w : Walk) : Formed (.exprs position [] []) w w
  | moreExprs {position : Expr → Position} {e out es outs w w₁ w₂} :
    Formed (.expr (position e) e out) w w₁ → Formed (.exprs position es outs) w₁ w₂ →
    Formed (.exprs position (e :: es) (out :: outs)) w w₂
  | noExpr (w : Walk) : Formed (.expr? none none) w w
  | someExpr {e out w w'} : Formed (.expr .value e out) w w' →
    Formed (.expr? (some e) (some out)) w w'
  | noProperties (w : Walk) : Formed (.properties [] []) w w
  | moreProperties {key key' value out shorthand ps outs w w₁ w₂ w₃} :
    Formed (.key key key') w w₁ → Formed (.expr .value value out) w₁ w₂ →
    Formed (.properties ps outs) w₂ w₃ → Formed (.properties (⟨key, value, shorthand⟩ :: ps)
      (⟨key', out, shorthand && Operand.staysShort key' out⟩ :: outs)) w w₃
  | keyName (x : String) (w : Walk) : Formed (.key (.name x) (.name x)) w w
  | keyStr (x : String) (w : Walk) : Formed (.key (.str x) (.str x)) w w
  | keyComputed {e out w w'} : Formed (.expr .value e out) w w' →
    Formed (.key (.computed e) (.computed out)) w w'
  | sourceNow {e out w w'} : Formed (.expr (argumentPosition e) e out) w w' →
    Formed (.source e out .undefined) w w'
  | sourceBack {x i out lookback w w₁ w₂} :
    Formed (.expr .value i lookback) w w₁ → Formed (.expr .handle (.ident x) out) w₁ w₂ →
    Formed (.source (.index (.ident x) i) out lookback) w w₂
  | noCaptures (library : String) (w : Walk) : Formed (.captures library [] []) w w
  | capture {library e source lookback es outs w w₁ w₂ w₃} :
    isSeriesArgument e = true → Formed (.source e source lookback) w w₁ →
    Hoists (constant (captureTemp w₁.scopes).1 (.call (.member (.ident library) "param")
      [source, lookback, identity w₁.scopes (captureTemp w₁.scopes).1]))
      { w₁ with scopes := (captureTemp w₁.scopes).2 } w₂ →
    Formed (.captures library es outs) w₂ w₃ →
    Formed (.captures library (e :: es) (.ident (captureTemp w₁.scopes).1 :: outs)) w w₃
  | captureValue {library e out es outs w w₁ w₂} :
    isSeriesArgument e = false → Formed (.expr .value e out) w w₁ →
    Formed (.captures library es outs) w₁ w₂ →
    Formed (.captures library (e :: es) (out :: outs)) w w₂
  | functionParts {frame name params outs body stmts arrow w w₁ w₂} :
    Formed (.params params outs) { w with scopes := w.scopes.enterFunction frame } w₁ →
    Formed (.block (bodyStmts body) stmts) w₁ w₂ →
    Formed (.function frame ⟨name, params, body, arrow⟩ ⟨name, outs, .block stmts, arrow⟩)
      w { w₂ with scopes := w₂.scopes.exitFunction }
  | noParams (w : Walk) : Formed (.params [] []) w w
  | plainParam {p ps outs w w'} : (∀ target value, p ≠ .withDefault target value) →
    Formed (.params ps outs)
    { w with scopes := p.boundNames.foldl Scopes.addContextBound w.scopes } w' →
    Formed (.params (p :: ps) (p :: outs)) w w'
  | defaultParam {target value out ps outs w w₁ w₂} : Formed (.expr .value value out) w w₁ →
    Formed (.params ps outs)
      { w₁ with scopes := target.boundNames.foldl Scopes.addContextBound w₁.scopes } w₂ →
    Formed (.params (.withDefault target value :: ps) (.withDefault target out :: outs)) w w₂
  | var {kind ds outs w w'} :
    Formed (.declarators kind ds outs) w w' → Formed (.stmt (.var kind ds) outs) w w'
  | functionStmt {f g w w'} :
    Formed (.function .user f g) w w' → Formed (.stmt (.function f) [.function g]) w w'
  | ret {e out w w'} : Formed (.expr? e out) w w' →
    Formed (.stmt (.ret e) [.ret out]) w w'
  | retRounded {e out w w'} : w.scopes.inUserFunctionBody = true →
    Formed (.expr .value e out) w w' →
    Formed (.stmt (.ret (some e)) [.ret (some (contextCall "precision" [out]))]) w w'
  | ifThen {test test' body stmts w w₁ w₂} :
    Formed (.expr .value test test') w w₁ → Formed (.scope .ifBranch (asList body) stmts) w₁ w₂ →
    Formed (.stmt (.ifElse test body none) [.ifElse test' (.block stmts) none]) w w₂
  | ifElse {test test' body other stmts stmts' w w₁ w₂ w₃} :
    Formed (.expr .value test test') w w₁ → Formed (.scope .ifBranch (asList body) stmts) w₁ w₂ →
    Formed (.scope .elseBranch (asList other) stmts') w₂ w₃ →
    Formed (.stmt (.ifElse test body (some other))
      [.ifElse test' (.block stmts) (some (alternateStmt stmts'))]) w w₃
  | forLoop {init init' test test' update update' body stmts w w₁ w₂ w₃ w₄} :
    Formed (.init? init init') { w with scopes := w.scopes.push .forLoop } w₁ →
    Formed (.expr? test test') w₁ w₂ → Formed (.expr? update update') w₂ w₃ →
    Formed (.block (asList body) stmts) w₃ w₄ →
    Formed (.stmt (.forLoop init test update body) [.forLoop init' test' update' (.block stmts)])
      w { w₄ with scopes := w₄.scopes.pop }
  | forEach (each : ForEachKind) (kind : Option VarKind) (pattern : Pattern)
      {right right' body stmts w w₁ w₂} : Formed (.expr .value right right') w w₁ →
    Formed (.block (asList body) stmts) { w₁ with
      scopes := pattern.boundNames.foldl Scopes.addLoopVariable (w₁.scopes.push .forLoop) } w₂ →
    Formed (.stmt (.forEach each kind pattern right body)
      [.forEach each kind pattern right' (.block stmts)]) w { w₂ with scopes := w₂.scopes.pop }
  | whileLoop {test test' body stmts w w₁ w₂} :
    Formed (.expr .value test test') w w₁ → Formed (.scope .whileLoop (asList body) stmts) w₁ w₂ →
    Formed (.stmt (.whileLoop test body) [.whileLoop test' (.block stmts)]) w w₂
  | blockStmt {body stmts w w'} : Formed (.scope .block body stmts) w w' →
    Formed (.stmt (.block body) [.block stmts]) w w'
  | exprStmt {e out w w'} : Formed (.expr .value e out) w w' →
    Formed (.stmt (.expr e) [.expr out]) w w'
  | breakLoop (w : Walk) : Formed (.stmt .breakLoop [.breakLoop]) w w
  | continueLoop (w : Walk) : Formed (.stmt .continueLoop [.continueLoop]) w w
  | empty (w : Walk) : Formed (.stmt .empty []) w w
  | noStmts (w : Walk) : Formed (.stmts [] []) w w
  | moreStmts {stmt rest stmts outs w w₁ w₂} :
    Formed (.stmt stmt stmts) w w₁ → Formed (.stmts rest outs) w₁.taken w₂ →
    Formed (.stmts (stmt :: rest) (w₁.hoisted.headD [] ++ stmts ++ outs)) w w₂
  | block {body stmts w w'} : Formed (.stmts body stmts) { w with hoisted := [] :: w.hoisted } w' →
    Formed (.block body stmts) w { w' with hoisted := w'.hoisted.tail }
  | scope {kind body stmts w w'} :
    Formed (.block body stmts) { w with scopes := w.scopes.push kind } w' →
    Formed (.scope kind body stmts) w { w' with scopes := w'.scopes.pop }
  | noDeclarators (kind : VarKind) (w : Walk) : Formed (.declarators kind [] []) w w
  | moreDeclarators {kind d ds out outs w w₁ w₂} : Formed (.declarator kind d out) w w₁ →
    Formed (.declarators kind ds outs) w₁ w₂ →
    Formed (.declarators kind (d :: ds) (out :: outs)) w w₂
  | takenOff (kind : VarKind) {id init out w w'} :
    init.any (isContextRooted w.scopes.rootName) = true →
    Formed (.expr? init out)
    { w with scopes := id.boundNames.foldl Scopes.addContextBound w.scopes } w' →
    Formed (.declarator kind ⟨id, init⟩ (.var kind [⟨id, out⟩])) w w'
  | plain (kind : VarKind) {x init out w w'} : Formed (.expr? init out) w w' →
    w'.scopes.resolve x = .localTemp ∨ w'.scopes.resolve x = .contextBound →
    Formed (.declarator kind ⟨.ident x, init⟩ (.var kind [⟨.ident x, out⟩])) w w'
  | slot (kind : VarKind) {x init out w w'} :
    Formed (.expr? init out) w w' → w'.scopes.resolve x ≠ .contextBound →
    Formed (.declarator kind ⟨.ident x, init⟩ (initSlot (initMethod kind)
      (slotRef kind (w'.scopes.addVariable x kind).1) (out.getD .undefined)))
      w { w' with scopes := (w'.scopes.addVariable x kind).2 }
  | noInit (w : Walk) : Formed (.init? none none) w w
  | declareInit (kind : VarKind) {ds outs w w'} : Formed (.bindings ds outs) w w' →
    Formed (.init? (some (.declare kind ds)) (some (.declare kind outs))) w w'
  | exprInit {e out w w'} : Formed (.expr .value e out) w w' →
    Formed (.init? (some (.expr e)) (some (.expr out))) w w'
  | noBindings (w : Walk) : Formed (.bindings [] []) w w
  | moreBindings {id init out ds outs w w₁ w₂} : Formed (.expr? init out) w w₁ →
    Formed (.bindings ds outs)
    { w₁ with scopes := id.boundNames.foldl Scopes.addLoopVariable w₁.scopes } w₂ →
    Formed (.bindings (⟨id, init⟩ :: ds) (⟨id, out⟩ :: outs)) w w₂

end IndicatorCompiler.SlotForm
