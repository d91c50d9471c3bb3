import IndicatorCompiler.Proofs.LoweredParts

/-!
# What lowering makes of a tree

Lowering runs in a state, but what it writes and emits has the shape of the tree.  `Emits S` says it
part by part: which texts an expression may have, and which statements a body may become, in a scene
`S`.  Where a text is only a part of another one, as an operand or an argument, it is a `phrase`,
whatever it was made of.
-/

namespace IndicatorCompiler.Lowering

open Pine
open Text (Rendered)

/-- What is known while parts of a program are lowered: names that are declared, the methods, names
that have been referred to, and whether the leaves of the parts are valid. -/
structure Scene where
  declared : List String
  methods : List String
  referenced : List String
  valid : Prop

/-- The text of what is declared. -/
def boundText : DeclTarget → String
  | .name name => bindingName name
  | .tuple names => tupleText (names.map bindingName)

/-- The text of what a loop over a collection binds. -/
def loopText : ForTarget → String
  | .name name => bindingName name
  | .pair index value => tupleText [bindingName index, bindingName value]

/-- The statements that deliver a value. -/
def Sink.delivered (value : String) : Sink → List Emitted
  | assign name => [.assign name value]
  | ret => [.ret value]
  | discard => []

/-- A part of a tree, or of a text, and what becomes of it. -/
inductive Outcome where
  /-- An expression is written. -/
  | text (x : Expr) (r : Rendered)
  /-- A part of a text, which begins as an expression may. -/
  | phrase (t : String)
  /-- A body is written as one expression. -/
  | value (body : List Stmt) (t : String)
  /-- Branches are written as choices in front of the last alternative. -/
  | choices (branches : List Branch) (last t : String)
  /-- What a `switch` compares is bound to a generated name. -/
  | binding (stmt : Emitted)
  /-- An expression is delivered into a sink. -/
  | into (sink : Sink) (x : Expr) (new : List Emitted)
  /-- Branches and a last `else` become a chain. -/
  | chain (sink : Sink) (fallback : String) (branches : List Branch) (last : Option (List Stmt))
      (new : List Emitted)
  /-- Branches become the arms of a chain. -/
  | arms (sink : Sink) (fallback : String) (branches : List Branch) (arms : List EmittedArm)
  /-- The last `else`, or the fallback if there is none. -/
  | last (sink : Sink) (fallback : String) (last : Option (List Stmt)) (new : List Emitted)
  /-- Only the last statement of a body is there for its value. -/
  | body (sink : Sink) (fallback : String) (body : List Stmt) (new : List Emitted)
  /-- A statement. -/
  | stmt (sink : Sink) (fallback : String) (kind : StmtKind) (new : List Emitted)
  /-- A statement that is neither an `if` nor an expression, and the value that it leaves behind. -/
  | one (fallback : String) (kind : StmtKind) (stmt : Emitted) (value : String)

/-- What becomes of the parts of a tree. -/
inductive Emits (S : Scene) : Outcome → Prop
  -- expressions
  | ident {n} (h : S.valid → IsIdentifier n) :
    Emits S (.text (.ident n) ⟨bindingName n, Strength.primary⟩)
  | int (n : Nat) : Emits S (.text (.int n) ⟨toString n, Strength.primary⟩)
  | float {x} (h : S.valid → (Leaf.number x).Valid) :
    Emits S (.text (.float x) ⟨x.literal, Strength.primary⟩)
  | str (s : String) : Emits S (.text (.str s) ⟨Text.quote s, Strength.primary⟩)
  | color (s : String) : Emits S (.text (.color s) ⟨Text.quote s, Strength.primary⟩)
  | bool (b : Bool) : Emits S (.text (.bool b) ⟨if b then "true" else "false", Strength.primary⟩)
  | na : Emits S (.text .na ⟨"NaN", Strength.primary⟩)
  | binary (op : BinaryOp) (x y : Expr) {l r} (hl : Emits S (.phrase l))
    (hr : Emits S (.phrase r)) :
    Emits S (.text (.binary op x y) ⟨l ++ " " ++ binaryText op ++ " " ++ r, binaryStrength op⟩)
  | unary (op : UnaryOp) (x : Expr) {t} (h : Emits S (.phrase t)) :
    Emits S (.text (.unary op x) ⟨signed op t, Strength.unary⟩)
  | ternary (x : Expr) {t y z a b} (ht : Emits S (.phrase t)) (hy : Emits S (.text y a))
      (hz : Emits S (.text z b)) :
    Emits S (.text (.ternary x y z) ⟨t ++ " ? " ++ a.within Strength.ternary ++ " : " ++
      b.within Strength.ternary, Strength.ternary⟩)
  | call (x : Expr) (types : List TypeRef) (args : List Argument) {t receiver texts}
      (ht : Emits S (.phrase t)) (hreceiver : ∀ r ∈ receiver, Emits S (.phrase r))
      (hnames : S.valid → ∀ text ∈ texts, ∀ n ∈ text.1, isWord n = true)
      (htexts : ∀ text ∈ texts, Emits S (.phrase text.2)) :
    Emits S (.text (.call x types args) ⟨t ++ "(" ++ argumentsText receiver texts ++ ")",
      Strength.call⟩)
  | member (x : Expr) {p t} (hp : S.valid → isWord p = true) (ht : Emits S (.phrase t)) :
    Emits S (.text (.member x p) ⟨t ++ "." ++ p, Strength.call⟩)
  | history (x y : Expr) {t o} (ht : Emits S (.phrase t)) (ho : Emits S (.phrase o)) :
    Emits S (.text (.history x y) ⟨t ++ "[" ++ o ++ "]", Strength.call⟩)
  | tuple (xs : List Expr) {ts} (h : ∀ t ∈ ts, Emits S (.phrase t)) :
    Emits S (.text (.tuple xs) ⟨"[" ++ Text.joinWith ", " ts ++ "]", Strength.primary⟩)
  /-- A function that is called on the spot. -/
  | called {x} (level : Nat) {new} (hx : x.lifted = x) (h : Emits S (.into .ret x new)) :
    Emits S (.text x ⟨calledText level new, Strength.call⟩)
  | ternaries (d : Option Expr) {cases last t}
      (hlast : Emits S (.value ((defaultBody cases).getD []) last))
      (h : Emits S (.choices (testedBranches cases) last t)) :
    Emits S (.text (.switch d cases false) ⟨t, Strength.ternary⟩)
  -- phrases
  | within {x r} (h : Emits S (.text x r)) (n : Nat) : Emits S (.phrase (r.within n))
  | name {n} (h : S.valid → IsIdentifier n) : Emits S (.phrase (bindingName n))
  | names {ns : List String} (h : S.valid → ∀ n ∈ ns, IsIdentifier n) :
    Emits S (.phrase (tupleText (ns.map bindingName)))
  | method {n} (hmem : n ∈ S.methods) (h : S.valid → isWord n = true) :
    Emits S (.phrase (bindingName n))
  | fresh (k : Nat) : Emits S (.phrase (switchStem ++ toString k))
  | construct (types : List TypeRef) {t} (h : Emits S (.phrase t)) :
    Emits S (.phrase (constructorText t types))
  | point {p t} (hp : S.valid → isWord p = true) (h : Emits S (.phrase t)) :
    Emits S (.phrase (t ++ "." ++ p))
  /-- A comparison, or a parameter with its default. -/
  | joined {s t u} (hs : s ∈ [" == ", " = "]) (ht : Emits S (.phrase t))
    (hu : Emits S (.phrase u)) : Emits S (.phrase (t ++ s ++ u))
  | entries {t} (h : Emits S (.phrase t)) : Emits S (.phrase (t ++ ".entries()"))
  /-- The update of a loop. -/
  | step {s} (hs : s ∈ ["--", "++"]) : Emits S (.phrase s)
  | amount {s t} (hs : s ∈ [" -= ", " += "]) (h : Emits S (.phrase t)) : Emits S (.phrase (s ++ t))
  | literal (x : Number.Double) : Emits S (.phrase x.abs.literal)
  | absolute {t} (h : Emits S (.phrase t)) : Emits S (.phrase ("Math.abs(" ++ t ++ ")"))
  -- cases that are single expressions
  | single {x r} (line : Nat) (h : Emits S (.text x r)) :
    Emits S (.value [⟨.expr x, line⟩] (r.within Strength.ternary))
  | unmatched {body} (h : singleExpr? body = none) : Emits S (.value body "undefined")
  | none (last : String) : Emits S (.choices [] last last)
  | either {branch rest last test value t} (htest : Emits S (.phrase test))
      (hvalue : Emits S (.value branch.body value)) (h : Emits S (.choices rest last t)) :
    Emits S (.choices (branch :: rest) last (test ++ " ? " ++ value ++ " : " ++ t))
  | binding {k : Nat} {t} (hfresh : switchStem ++ toString k ∉ S.declared)
    (h : Emits S (.phrase t)) :
    Emits S (.binding (.line ("let " ++ (switchStem ++ toString k) ++ " = " ++ t ++ ";")))
  -- values in sinks
  | plain {x r before} (sink : Sink) (hx : isChoice x = false)
      (hbefore : ∀ stmt ∈ before, Emits S (.binding stmt)) (h : Emits S (.text x r)) :
    Emits S (.into sink x (before ++ sink.delivered r.text))
  | conditional {sink branches last new} (lifts : Bool)
      (h : Emits S (.chain sink ifFallback branches last new)) :
    Emits S (.into sink (.conditional branches last lifts) new)
  | switch {sink} (d : Option Expr) {cases new} (lifts : Bool)
      (h : Emits S (.chain sink switchFallback (testedBranches cases) (defaultBody cases) new)) :
    Emits S (.into sink (.switch d cases lifts) new)
  -- chains
  | bare {sink fallback last before new} (hbefore : ∀ stmt ∈ before, Emits S (.binding stmt))
      (h : Emits S (.last sink fallback last new)) :
    Emits S (.chain sink fallback [] last (before ++ new))
  | chain {sink fallback branches last before first more final}
      (hbefore : ∀ stmt ∈ before, Emits S (.binding stmt))
      (harms : Emits S (.arms sink fallback branches (first :: more)))
      (hfinal : ∀ new ∈ final, Emits S (.last sink fallback last new))
      (hsome : sink ≠ .discard → final.isSome = true) :
    Emits S (.chain sink fallback branches last (before ++ [.chain first more final]))
  | armsNil (sink : Sink) (fallback : String) : Emits S (.arms sink fallback [] [])
  | armsCons {sink fallback branch rest arm more} (htest : Emits S (.phrase arm.test))
      (hbody : Emits S (.body sink fallback branch.body arm.body))
      (h : Emits S (.arms sink fallback rest more)) :
    Emits S (.arms sink fallback (branch :: rest) (arm :: more))
  | lastNone (sink : Sink) (fallback : String) :
    Emits S (.last sink fallback none (sink.delivered fallback))
  | lastSome {sink fallback body new} (h : Emits S (.body sink fallback body new)) :
    Emits S (.last sink fallback (some body) new)
  -- bodies
  | bodyNil (sink : Sink) (fallback : String) :
    Emits S (.body sink fallback [] (sink.delivered fallback))
  | bodyLast {sink fallback kind} (line : Nat) {new} (h : Emits S (.stmt sink fallback kind new)) :
    Emits S (.body sink fallback [⟨kind, line⟩] new)
  | bodyCons {sink fallback kind} (line : Nat) {next rest before new}
      (h : Emits S (.stmt .discard fallback kind before))
      (hrest : Emits S (.body sink fallback (next :: rest) new)) :
    Emits S (.body sink fallback (⟨kind, line⟩ :: next :: rest) (before ++ new))
  -- statements
  | oneOf {sink fallback value kind stmt before between}
      (hbefore : ∀ stmt ∈ before, Emits S (.binding stmt))
      (h : Emits S (.one fallback kind stmt value))
      (hbetween : ∀ stmt ∈ between, Emits S (.binding stmt)) :
    Emits S (.stmt sink fallback kind (before ++ stmt :: (between ++ sink.delivered value)))
  | lifted {sink fallback} (type : Option TypeRef) {n x new} (hn : S.valid → IsIdentifier n)
      (hx : x.needsLifting = true) (h : Emits S (.into (.assign (bindingName n)) x new)) :
    Emits S (.stmt sink fallback (.varDecl .plain type (.name n) x)
      (.line ("let " ++ bindingName n ++ ";") :: (new ++ sink.delivered (bindingName n))))
  | ifElse {sink fallback test body otherwise new}
      (h : Emits S
        (.chain sink (if sink = .discard then ifFallback else fallback)
          (ifChain test body otherwise).1 (ifChain test body otherwise).2 new)) :
    Emits S (.stmt sink fallback (.ifElse test body otherwise) new)
  | exprInto {sink fallback x new}
      (hx : (if sink = .discard then isChoice x else x.needsLifting) = true)
      (h : Emits S (.into sink x new)) : Emits S (.stmt sink fallback (.expr x) new)
  | exprLine {fallback x r before} (hx : isChoice x = false)
      (hbefore : ∀ stmt ∈ before, Emits S (.binding stmt)) (h : Emits S (.text x r)) :
    Emits S (.stmt .discard fallback (.expr x) (before ++ [.line (r.text ++ ";")]))
  | exprText {sink fallback x r before} (hsink : sink ≠ .discard) (hx : x.needsLifting = false)
      (hbefore : ∀ stmt ∈ before, Emits S (.binding stmt)) (h : Emits S (.text x r)) :
    Emits S (.stmt sink fallback (.expr x) (before ++ sink.delivered r.text))
  | declared (fallback : String) {word mode} (type : Option TypeRef) {target x t}
      (hword : word ∈ ["let", "var", "const"])
      (htarget : S.valid → ∀ n ∈ target.names, IsIdentifier n)
      (hplain : ∀ n, target = .name n → (mode = .plain && x.needsLifting) = false)
      (h : Emits S (.phrase t)) : Emits S (.one fallback (.varDecl mode type target x)
      (.line (word ++ " " ++ boundText target ++ " = " ++ t ++ ";")) (boundText target))
  | reassign (fallback : String) (x y : Expr) (op : AssignOp) {t v u} (ht : Emits S (.phrase t))
      (hv : Emits S (.phrase v)) (hu : Emits S (.phrase u)) :
    Emits S (.one fallback (.reassign x op y)
      (.line (t ++ " " ++ assignText op ++ " " ++ v ++ ";")) u)
  | function {fallback n} (kind : FunctionKind) (params : List Param) {body} (exported : Bool)
      {ts new} (hn : S.valid → IsIdentifier n) (hts : ∀ t ∈ ts, Emits S (.phrase t))
      (h : Emits S (.body .discard fallback body new)) :
    Emits S (.one fallback (.function n kind params body exported)
      (.block ("function " ++ bindingName n ++ "(" ++ Text.joinWith ", " ts ++ ")") new) fallback)
  | type (fallback : String) {n fields} (exported : Bool) {types defaults : List (String × String)}
      (hn : S.valid → IsIdentifier n)
      (htypes : S.valid → ∀ field ∈ types, isWord field.1 = true ∧ ∃ s, field.2 = Text.quote s)
      (hnames : S.valid → ∀ field ∈ defaults, isWord field.1 = true)
      (hvalues : ∀ field ∈ defaults, Emits S (.phrase field.2)) :
    Emits S (.one fallback (.typeDecl n fields exported)
      (.line ("const " ++ bindingName n ++ " = Type(" ++ fieldsText types ++
        (if defaults.isEmpty then "" else ", " ++ fieldsText defaults) ++ ");")) fallback)
  | forRange {fallback n} (x y : Expr) (z : Option Expr) {body a b update new}
      (hn : S.valid → IsIdentifier n) (ha : Emits S (.phrase a)) (hb : Emits S (.phrase b))
      (hupdate : Emits S (.phrase update.2)) (h : Emits S (.body .discard fallback body new)) :
    Emits S (.one fallback (.forRange n x y z body)
      (.block (rangeHead (bindingName n) a b update) new) fallback)
  | forIn {fallback target} (x : Expr) {body t new} (htarget : Emits S (.phrase (loopText target)))
      (ht : Emits S (.phrase t)) (h : Emits S (.body .discard fallback body new)) :
    Emits S (.one fallback (.forIn target x body)
      (.block ("for (const " ++ loopText target ++ " of " ++ t ++ ")") new) fallback)
  | whileLoop {fallback} (x : Expr) {body t new} (ht : Emits S (.phrase t))
      (h : Emits S (.body .discard fallback body new)) :
    Emits S (.one fallback (.whileLoop x body) (.block ("while (" ++ t ++ ")") new) fallback)
  | retNone (fallback : String) : Emits S (.one fallback (.ret none) (.line "return;") fallback)
  | ret (fallback : String) (x : Expr) {t} (h : Emits S (.phrase t)) :
    Emits S (.one fallback (.ret (some x)) (.ret t) fallback)
  | breakLoop (fallback : String) : Emits S (.one fallback .breakLoop (.line "break;") fallback)
  | continueLoop (fallback : String) :
    Emits S (.one fallback .continueLoop (.line "continue;") fallback)

end IndicatorCompiler.Lowering
