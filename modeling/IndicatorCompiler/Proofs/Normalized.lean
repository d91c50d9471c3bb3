import IndicatorCompiler.NormalForm
import IndicatorCompiler.Proofs.FreshNames
import IndicatorCompiler.Proofs.Succeeds

/-!
# What normal forms look like

The relations say what the normal form of a tree can be, whichever temporaries it uses.  What is
true of normal forms is shown along them; that normalisation leads to them is shown once, here.
-/

namespace IndicatorCompiler.NormalForm

open Script
open SlotForm (tempName)

mutual
/-- The normal form of an expression. -/
inductive NormalExpr (root : String) : Expr → Expr → Prop
  | ident (x : String) : NormalExpr root (.ident x) (.ident x)
  | lit (value : Literal) : NormalExpr root (.lit value) (.lit value)
  | array {es es'} : NormalExprs root es es' → NormalExpr root (.array es) (.array es')
  | sequence {es es'} : NormalExprs root es es' → NormalExpr root (.sequence es) (.sequence es')
  | object {ps ps'} : NormalProperties root ps ps' → NormalExpr root (.object ps) (.object ps')
  | function {f f'} : NormalFunction root f f' → NormalExpr root (.function f) (.function f')
  | unary (op : UnaryOp) {e e'} :
    NormalExpr root e e' → NormalExpr root (.unary op e) (.unary op e')
  | update (op : UpdateOp) (prefixed : Bool) {e e'} :
    NormalExpr root e e' → NormalExpr root (.update op prefixed e) (.update op prefixed e')
  | spread {e e'} : NormalExpr root e e' → NormalExpr root (.spread e) (.spread e')
  | binary (op : BinaryOp) {l l' r r'} : NormalExpr root l l' → NormalExpr root r r' →
    NormalExpr root (.binary op l r) (.binary op l' r')
  | assign (op : AssignOp) {t t' v v'} : NormalExpr root t t' → NormalExpr root v v' →
    NormalExpr root (.assign op t v) (.assign op t' v')
  | conditional {t t' c c' a a'} : NormalExpr root t t' → NormalExpr root c c' →
    NormalExpr root a a' → NormalExpr root (.conditional t c a) (.conditional t' c' a')
  | call {f f' es es'} : NormalExpr root f f' → NormalExprs root es es' →
    NormalExpr root (.call f es) (.call f' es')
  | new {f f' es es'} : NormalExpr root f f' → NormalExprs root es es' →
    NormalExpr root (.new f es) (.new f' es')
  | member {e e'} (x : String) : NormalExpr root e e' → NormalExpr root (.member e x) (.member e' x)
  | index {b b' i i'} : NormalExpr root b b' → NormalExpr root i i' →
    NormalExpr root (.index b i) (.index b' i')

/-- The normal forms of several expressions. -/
inductive NormalExprs (root : String) : List Expr → List Expr → Prop
  | nil : NormalExprs root [] []
  | cons {e e' es es'} : NormalExpr root e e' → NormalExprs root es es' →
    NormalExprs root (e :: es) (e' :: es')

/-- The normal form of an expression, if there is one. -/
inductive NormalExpr? (root : String) : Option Expr → Option Expr → Prop
  | none : NormalExpr? root none none
  | some {e e'} : NormalExpr root e e' → NormalExpr? root (some e) (some e')

/-- The normal forms of properties. -/
inductive NormalProperties (root : String) : List Property → List Property → Prop
  | nil : NormalProperties root [] []
  | cons {key key' value value' ps ps'} (shorthand : Bool) :
    NormalKey root key key' → NormalExpr root value value' → NormalProperties root ps ps' →
    NormalProperties root (⟨key, value, shorthand⟩ :: ps) (⟨key', value', shorthand⟩ :: ps')

/-- The normal form of a key. -/
inductive NormalKey (root : String) : PropertyKey → PropertyKey → Prop
  | name (x : String) : NormalKey root (.name x) (.name x)
  | str (x : String) : NormalKey root (.str x) (.str x)
  | computed {e e'} : NormalExpr root e e' → NormalKey root (.computed e) (.computed e')

/-- The normal form of a function. -/
inductive NormalFunction (root : String) : Function → Function → Prop
  | block (name : Option String) (params : List Pattern) (arrow : Bool) {body body'} :
    NormalStmts root body body' →
    NormalFunction root ⟨name, params, .block body, arrow⟩ ⟨name, params, .block body', arrow⟩
  | expr (name : Option String) (params : List Pattern) (arrow : Bool) {e e'} :
    NormalExpr root e e' →
    NormalFunction root ⟨name, params, .expr e, arrow⟩ ⟨name, params,
      .block [.ret (some e')], arrow⟩

/-- The statements that a statement becomes. -/
inductive NormalStmt (root : String) : Stmt → List Stmt → Prop
  | var {kind decls stmts} :
    NormalDeclarators root kind decls stmts → NormalStmt root (.var kind decls) stmts
  | function {f f'} : NormalFunction root f f' → NormalStmt root (.function f) [.function f']
  | ret {e e'} : NormalExpr? root e e' → NormalStmt root (.ret e) [.ret e']
  | ifThen {test test' consequent stmts} :
    NormalExpr root test test' → NormalStmt root consequent stmts →
    NormalStmt root (.ifElse test consequent none) [.ifElse test' (asBlock stmts) none]
  | ifElse {test test' consequent alternate stmts stmts'} :
    NormalExpr root test test' → NormalStmt root consequent stmts →
    NormalStmt root alternate stmts' →
    NormalStmt root (.ifElse test consequent (some alternate))
      [.ifElse test' (asBlock stmts) (some (asAlternate stmts'))]
  | forLoop {init init' test test' update update' body stmts} :
    NormalInit? root init init' → NormalExpr? root test test' →
    NormalExpr? root update update' → NormalStmt root body stmts →
    NormalStmt root (.forLoop init test update body) [.forLoop init' test' update' (asBlock stmts)]
  | forEach (each : ForEachKind) (kind : Option VarKind) (pattern : Pattern)
      {right right' body stmts} : NormalExpr root right right' → NormalStmt root body stmts →
    NormalStmt root (.forEach each kind pattern right body)
      [.forEach each kind pattern right' (asBlock stmts)]
  | whileLoop {test test' body stmts} : NormalExpr root test test' →
    NormalStmt root body stmts →
    NormalStmt root (.whileLoop test body) [.whileLoop test' (asBlock stmts)]
  | block {body body'} : NormalStmts root body body' →
    NormalStmt root (.block body) [.block body']
  | expr {e e'} : NormalExpr root e e' → NormalStmt root (.expr e) [.expr e']
  | empty : NormalStmt root .empty []
  | breakLoop : NormalStmt root .breakLoop [.breakLoop]
  | continueLoop : NormalStmt root .continueLoop [.continueLoop]

/-- The statements that several statements become. -/
inductive NormalStmts (root : String) : List Stmt → List Stmt → Prop
  | nil : NormalStmts root [] []
  | cons {stmt stmts rest rest'} : NormalStmt root stmt stmts →
    NormalStmts root rest rest' → NormalStmts root (stmt :: rest) (stmts ++ rest')

/-- The normal form of what a loop starts with. -/
inductive NormalInit? (root : String) : Option ForInit → Option ForInit → Prop
  | none : NormalInit? root none none
  | declare (kind : VarKind) {decls decls'} : NormalBindings root decls decls' →
    NormalInit? root (some (.declare kind decls)) (some (.declare kind decls'))
  | expr {e e'} : NormalExpr root e e' → NormalInit? root (some (.expr e)) (some (.expr e'))

/-- The normal forms of the bindings of a loop. -/
inductive NormalBindings (root : String) : List Declarator → List Declarator → Prop
  | nil : NormalBindings root [] []
  | cons (id : Pattern) {init init' ds ds'} :
    NormalExpr? root init init' → NormalBindings root ds ds' →
    NormalBindings root (⟨id, init⟩ :: ds) (⟨id, init'⟩ :: ds')

/-- The statements that bindings become. -/
inductive NormalDeclarators (root : String) : VarKind → List Declarator → List Stmt → Prop
  | nil (kind : VarKind) : NormalDeclarators root kind [] []
  | cons {kind d ds stmts rest} :
    NormalDeclarator root kind d stmts → NormalDeclarators root kind ds rest →
    NormalDeclarators root kind (d :: ds) (stmts ++ rest)

/-- The statements that a binding becomes. -/
inductive NormalDeclarator (root : String) : VarKind → Declarator → List Stmt → Prop
  | function {kind} (x : String) {f f'} : NormalFunction root f f' →
    NormalDeclarator root kind ⟨.ident x, some (.function f)⟩
    [.function ⟨some x, f'.params, f'.body, false⟩]
  | name {kind} (x : String) {init init'} :
    (∀ f, init ≠ some (.function f)) → NormalExpr? root init init' →
    NormalDeclarator root kind ⟨.ident x, init⟩ [declared kind (.ident x) init']
  | takenOff {kind} (pattern : Pattern) {init} :
    (∀ x, pattern ≠ .ident x) → isContextRooted root init = true →
    NormalDeclarator root kind ⟨pattern, some init⟩ [declared kind pattern (some init)]
  | split {kind} (n : Nat) {pattern init init' stmts} :
    (∀ x, pattern ≠ .ident x) → isContextRooted root init = false → NormalExpr root init init' →
    Expanded root kind (.ident (tempName n)) pattern stmts →
    NormalDeclarator root kind ⟨pattern, some init⟩
      (declared .constant (.ident (tempName n)) (some init') :: stmts)

/-- The declarations of the names of a pattern, from a source. -/
inductive Expanded (root : String) : VarKind → Expr → Pattern → List Stmt → Prop
  | ident {kind source} (x : String) :
    Expanded root kind source (.ident x) [declared kind (.ident x) (some source)]
  | withDefault {kind source value value' target stmts} :
    NormalExpr root value value' → Expanded root kind (orDefault source value') target stmts →
    Expanded root kind source (.withDefault target value) stmts
  | array {kind source items stmts} :
    ExpandedItems root kind source 0 items stmts → Expanded root kind source (.array items) stmts
  | object {kind source ps stmts} :
    ExpandedProperties root kind source ps stmts → Expanded root kind source (.object ps) stmts

/-- The declarations of the names of elements, from a position on. -/
inductive ExpandedItems (root : String) :
    VarKind → Expr → Nat → List (Option Pattern) → List Stmt → Prop
  | nil (kind : VarKind) (source : Expr) (i : Nat) : ExpandedItems root kind source i [] []
  | hole {kind source i items stmts} : ExpandedItems root kind source (i + 1) items stmts →
    ExpandedItems root kind source i (none :: items) stmts
  | rest {kind source i target items stmts more} :
    Expanded root kind (elementsFrom source i) target stmts →
    ExpandedItems root kind source (i + 1) items more →
    ExpandedItems root kind source i (some (.rest target) :: items) (stmts ++ more)
  | item {kind source i pattern items stmts more} :
    Expanded root kind (elementOf source i) pattern stmts →
    ExpandedItems root kind source (i + 1) items more →
    ExpandedItems root kind source i (some pattern :: items) (stmts ++ more)

/-- The declarations of the names of properties. -/
inductive ExpandedProperties (root : String) :
    VarKind → Expr → List PatternProperty → List Stmt → Prop
  | nil (kind : VarKind) (source : Expr) : ExpandedProperties root kind source [] []
  | cons {kind source} (key : String) {value ps stmts more} :
    Expanded root kind (.member source key) value stmts →
    ExpandedProperties root kind source ps more →
    ExpandedProperties root kind source (⟨key, value⟩ :: ps) (stmts ++ more)
end

/-! ## Normalisation leads to normal forms -/

section

/-- What the scopes of a unit have while they hand out temporaries. -/
structure TempInvariant (root : String) where
  Holds : Scopes → Prop
  root : ∀ s, Holds s → s.rootName = root
  temp : ∀ s, Holds s → Holds (s.generateTemp.2.addTemp s.generateTemp.1)

variable {root : String} (I : TempInvariant root)

theorem yields_newTemp : Yields I.Holds newTemp fun x => ∃ n, x = tempName n := by
  intro s x s' hs hx
  simp only [newTemp, succeeds_get_bind_iff, succeeds_set_bind_iff, succeeds_pure_iff] at hx
  obtain ⟨rfl, rfl⟩ := hx
  obtain ⟨n, -, heq, -⟩ := Text.numbered_eq s.reserved "_tmp" s.nextTemp
  exact ⟨I.temp s hs, n, by rw [Scopes.generateTemp, heq]; rfl⟩

theorem yields_declarator {kind id init ds}
    (hfunction : ∀ f, init = some (.function f) →
      Yields I.Holds (normalFunction f) (NormalFunction root f))
    (hinit : Yields I.Holds (normalExpr? init) (NormalExpr? root init))
    (hsome : ∀ e, init = some e → Yields I.Holds (normalExpr e) (NormalExpr root e))
    (hexpand : ∀ source, Yields I.Holds (expandPattern kind source id)
      (Expanded root kind source id))
    (hrest : Yields I.Holds (normalDeclarators kind ds) (NormalDeclarators root kind ds)) :
    Yields I.Holds (normalDeclarators kind (⟨id, init⟩ :: ds))
    (NormalDeclarators root kind (⟨id, init⟩ :: ds)) := by
  have hcons : ∀ stmts, NormalDeclarator root kind ⟨id, init⟩ stmts → Yields I.Holds (do
      let rest ← normalDeclarators kind ds
      return stmts ++ rest) (NormalDeclarators root kind (⟨id, init⟩ :: ds)) :=
    fun _ h => hrest.bind fun _ hs => yields_pure (.cons h hs)
  unfold normalDeclarators
  split
  · rename_i x f
    refine (hfunction f rfl).bind fun f' hf => ?_
    obtain ⟨name, params, body, arrow⟩ := f'
    exact (yields_pure (NormalDeclarator.function x hf)).bind hcons
  · rename_i x hvalue
    exact hinit.bind fun init' h => (yields_pure (NormalDeclarator.name x hvalue h)).bind hcons
  · exact yields_throw.bind hcons
  · rename_i e _ hpattern
    refine yields_get.bind fun s hs => ?_
    rw [I.root s hs]
    split
    · rename_i hrooted
      exact (yields_pure (NormalDeclarator.takenOff id hpattern hrooted)).bind hcons
    · rename_i hrooted
      refine (yields_newTemp I).bind fun temp ⟨n, htemp⟩ => ?_
      subst htemp
      refine (hsome e rfl).bind fun init' h => ?_
      refine (hexpand _).bind fun stmts hs => ?_
      exact (yields_pure
        (NormalDeclarator.split n hpattern (Bool.eq_false_iff.mpr hrooted) h hs)).bind hcons

theorem yields_item {kind source i pattern items}
    (htarget : ∀ target, pattern = .rest target →
      ∀ source, Yields I.Holds (expandPattern kind source target)
      (Expanded root kind source target))
    (hpattern : ∀ source, Yields I.Holds (expandPattern kind source pattern)
      (Expanded root kind source pattern))
    (hrest : Yields I.Holds (expandItems kind source (i + 1) items)
      (ExpandedItems root kind source (i + 1) items)) :
    Yields I.Holds (expandItems kind source i (some pattern :: items))
      (ExpandedItems root kind source i (some pattern :: items)) := by
  cases pattern with
  | rest target =>
    exact (htarget target rfl _).bind fun _ h => hrest.bind fun _ hs => yields_pure (.rest h hs)
  | _ => exact (hpattern _).bind fun _ h => hrest.bind fun _ hs => yields_pure (.item h hs)

mutual
theorem yields_normalExpr : (e : Expr) → Yields I.Holds (normalExpr e) (NormalExpr root e)
  | .ident x => yields_pure (.ident x)
  | .lit value => yields_pure (.lit value)
  | .array es => (yields_normalExprs es).bind fun _ h => yields_pure (.array h)
  | .sequence es => (yields_normalExprs es).bind fun _ h => yields_pure (.sequence h)
  | .object ps => (yields_normalProperties ps).bind fun _ h => yields_pure (.object h)
  | .function f => (yields_normalFunction f).bind fun _ h => yields_pure (.function h)
  | .unary op e => (yields_normalExpr e).bind fun _ h => yields_pure (.unary op h)
  | .update op prefixed e =>
    (yields_normalExpr e).bind fun _ h => yields_pure (.update op prefixed h)
  | .spread e => (yields_normalExpr e).bind fun _ h => yields_pure (.spread h)
  | .binary op l r => (yields_normalExpr l).bind fun _ hl =>
    (yields_normalExpr r).bind fun _ hr => yields_pure (.binary op hl hr)
  | .assign op t v => (yields_normalExpr t).bind fun _ ht =>
    (yields_normalExpr v).bind fun _ hv => yields_pure (.assign op ht hv)
  | .conditional t c a => (yields_normalExpr t).bind fun _ ht =>
    (yields_normalExpr c).bind fun _ hc =>
      (yields_normalExpr a).bind fun _ ha => yields_pure (.conditional ht hc ha)
  | .call f es => (yields_normalExpr f).bind fun _ hf =>
    (yields_normalExprs es).bind fun _ hes => yields_pure (.call hf hes)
  | .new f es => (yields_normalExpr f).bind fun _ hf =>
    (yields_normalExprs es).bind fun _ hes => yields_pure (.new hf hes)
  | .member e x => (yields_normalExpr e).bind fun _ h => yields_pure (.member x h)
  | .index b i => (yields_normalExpr b).bind fun _ hb =>
    (yields_normalExpr i).bind fun _ hi => yields_pure (.index hb hi)
termination_by structural x => x

theorem yields_normalExprs :
    (es : List Expr) → Yields I.Holds (normalExprs es) (NormalExprs root es)
  | [] => yields_pure .nil
  | e :: es => (yields_normalExpr e).bind fun _ h =>
    (yields_normalExprs es).bind fun _ hs => yields_pure (.cons h hs)
termination_by structural x => x

theorem yields_normalExpr? : (e : Option Expr) → Yields I.Holds (normalExpr? e) (NormalExpr? root e)
  | none => yields_pure .none
  | some e => (yields_normalExpr e).bind fun _ h => yields_pure (.some h)
termination_by structural x => x

theorem yields_normalProperties : (ps : List Property) →
    Yields I.Holds (normalProperties ps) (NormalProperties root ps)
  | [] => yields_pure .nil
  | ⟨.name x, value, shorthand⟩ :: ps => (yields_pure (.name x)).bind fun _ hkey =>
    (yields_normalExpr value).bind fun _ h => (yields_normalProperties ps).bind fun _ hs =>
      yields_pure (.cons shorthand hkey h hs)
  | ⟨.str x, value, shorthand⟩ :: ps => (yields_pure (.str x)).bind fun _ hkey =>
    (yields_normalExpr value).bind fun _ h => (yields_normalProperties ps).bind fun _ hs =>
      yields_pure (.cons shorthand hkey h hs)
  | ⟨.computed e, value, shorthand⟩ :: ps => (yields_normalExpr e).bind fun _ hkey =>
    (yields_pure (.computed hkey)).bind fun _ hkey => (yields_normalExpr value).bind fun _ h =>
      (yields_normalProperties ps).bind fun _ hs => yields_pure (.cons shorthand hkey h hs)
termination_by structural x => x

theorem yields_normalFunction :
    (f : Function) → Yields I.Holds (normalFunction f) (NormalFunction root f)
  | ⟨name, params, .block body, arrow⟩ => (yields_normalStmts body).bind fun _ h =>
    yields_pure (.block name params arrow h)
  | ⟨name, params, .expr e, arrow⟩ => (yields_normalExpr e).bind fun _ h =>
    yields_pure (.expr name params arrow h)
termination_by structural x => x

theorem yields_normalStmt : (stmt : Stmt) → Yields I.Holds (normalStmt stmt) (NormalStmt root stmt)
  | .var kind decls => (yields_normalDeclarators kind decls).mono fun _ h => .var h
  | .function f => (yields_normalFunction f).bind fun _ h => yields_pure (.function h)
  | .ret e => (yields_normalExpr? e).bind fun _ h => yields_pure (.ret h)
  | .ifElse test consequent none => (yields_normalExpr test).bind fun _ ht =>
    (yields_normalStmt consequent).bind fun _ hc => yields_pure (.ifThen ht hc)
  | .ifElse test consequent (some alternate) => (yields_normalExpr test).bind fun _ ht =>
    (yields_normalStmt consequent).bind fun _ hc =>
      (yields_normalStmt alternate).bind fun _ ha => yields_pure (.ifElse ht hc ha)
  | .forLoop none test update body => (yields_pure .none).bind fun _ hi =>
    (yields_normalExpr? test).bind fun _ ht => (yields_normalExpr? update).bind fun _ hu =>
      (yields_normalStmt body).bind fun _ hb => yields_pure (.forLoop hi ht hu hb)
  | .forLoop (some init) test update body => (yields_normalInit init).bind fun _ hi =>
    (yields_pure hi).bind fun _ hi => (yields_normalExpr? test).bind fun _ ht =>
      (yields_normalExpr? update).bind fun _ hu => (yields_normalStmt body).bind fun _ hb =>
        yields_pure (.forLoop hi ht hu hb)
  | .forEach each kind pattern right body => (yields_normalExpr right).bind fun _ hr =>
    (yields_normalStmt body).bind fun _ hb => yields_pure (.forEach each kind pattern hr hb)
  | .whileLoop test body => (yields_normalExpr test).bind fun _ ht =>
    (yields_normalStmt body).bind fun _ hb => yields_pure (.whileLoop ht hb)
  | .block body => (yields_normalStmts body).bind fun _ h => yields_pure (.block h)
  | .expr e => (yields_normalExpr e).bind fun _ h => yields_pure (.expr h)
  | .empty => yields_pure .empty
  | .breakLoop => yields_pure .breakLoop
  | .continueLoop => yields_pure .continueLoop
termination_by structural x => x

theorem yields_normalStmts :
    (stmts : List Stmt) → Yields I.Holds (normalStmts stmts) (NormalStmts root stmts)
  | [] => yields_pure .nil
  | stmt :: rest => (yields_normalStmt stmt).bind fun _ h =>
    (yields_normalStmts rest).bind fun _ hs => yields_pure (.cons h hs)
termination_by structural x => x

theorem yields_normalInit : (init : ForInit) →
    Yields I.Holds (normalInit init) fun init' => NormalInit? root (some init) (some init')
  | .declare kind decls =>
    (yields_normalBindings decls).bind fun _ h => yields_pure (.declare kind h)
  | .expr e => (yields_normalExpr e).bind fun _ h => yields_pure (.expr h)
termination_by structural x => x

theorem yields_normalBindings : (ds : List Declarator) →
    Yields I.Holds (normalLoopDeclarators ds) (NormalBindings root ds)
  | [] => yields_pure .nil
  | ⟨id, init⟩ :: ds => (yields_normalExpr? init).bind fun _ h =>
    (yields_normalBindings ds).bind fun _ hs => yields_pure (.cons id h hs)
termination_by structural x => x

theorem yields_normalDeclarators (kind : VarKind) :
    (ds : List Declarator) →
      Yields I.Holds (normalDeclarators kind ds) (NormalDeclarators root kind ds)
  | [] => yields_pure (.nil kind)
  | ⟨id, init⟩ :: ds =>
    yields_declarator I (yields_valueFunction init) (yields_normalExpr? init)
      (yields_value init) (fun source => yields_expandPattern kind source id)
      (yields_normalDeclarators kind ds)
termination_by structural x => x

theorem yields_value : (init : Option Expr) → (e : Expr) → init = some e →
    Yields I.Holds (normalExpr e) (NormalExpr root e)
  | some e, _, h => by
    have he := yields_normalExpr e
    obtain rfl := Option.some.inj h
    exact he
  | none, _, h => nomatch h
termination_by structural x _ _ => x

theorem yields_valueFunction : (e : Option Expr) → (f : Function) →
    e = some (.function f) → Yields I.Holds (normalFunction f) (NormalFunction root f)
  | some (.function f), _, h => by
    have hf := yields_normalFunction f
    obtain rfl := Expr.function.inj (Option.some.inj h)
    exact hf
  | none, _, h | some (.ident _), _, h | some (.lit _), _, h | some (.array _), _, h
  | some (.object _), _, h | some (.unary _ _), _, h | some (.update _ _ _), _, h
  | some (.binary _ _ _), _, h | some (.assign _ _ _), _, h | some (.conditional _ _ _), _, h
  | some (.call _ _), _, h | some (.new _ _), _, h | some (.member _ _), _, h
  | some (.index _ _), _, h | some (.sequence _), _, h | some (.spread _), _, h => nomatch h
termination_by structural x _ _ => x

theorem yields_expandPattern (kind : VarKind) (source : Expr) :
    (pattern : Pattern) →
      Yields I.Holds (expandPattern kind source pattern) (Expanded root kind source pattern)
  | .ident x => yields_pure (.ident x)
  | .withDefault target value => (yields_normalExpr value).bind fun _ hv =>
    (yields_expandPattern kind _ target).mono fun _ h => .withDefault hv h
  | .array items => (yields_expandItems kind source 0 items).mono fun _ h => .array h
  | .object ps => (yields_expandProperties kind source ps).mono fun _ h => .object h
  | .rest _ => yields_throw
termination_by structural x => x

theorem yields_expandItems (kind : VarKind) (source : Expr) (i : Nat) :
    (items : List (Option Pattern)) →
    Yields I.Holds (expandItems kind source i items) (ExpandedItems root kind source i items)
  | [] => yields_pure (.nil kind source i)
  | none :: items => (yields_pure (P := (· = [])) rfl).bind fun _ hnone =>
    (yields_expandItems kind source (i + 1) items).bind fun _ hs => yields_pure (by
      subst hnone
      exact .hole hs)
  | some pattern :: items => yields_item I (yields_restTarget kind pattern)
    (fun source => yields_expandPattern kind source pattern)
    (yields_expandItems kind source (i + 1) items)
termination_by structural x => x

theorem yields_restTarget (kind : VarKind) : (pattern : Pattern) →
    (target : Pattern) → pattern = .rest target → (source : Expr) →
    Yields I.Holds (expandPattern kind source target) (Expanded root kind source target)
  | .rest target, _, h, source => by
    have htarget := yields_expandPattern kind source target
    obtain rfl := Pattern.rest.inj h
    exact htarget
  | .ident _, _, h, _ | .array _, _, h, _ | .object _, _, h, _ | .withDefault _ _, _, h, _ =>
    nomatch h
termination_by structural x _ _ _ => x

theorem yields_expandProperties (kind : VarKind) (source : Expr) : (ps : List PatternProperty) →
    Yields I.Holds (expandProperties kind source ps) (ExpandedProperties root kind source ps)
  | [] => yields_pure (.nil kind source)
  | ⟨key, value⟩ :: ps => (yields_expandPattern kind _ value).bind fun _ h =>
    (yields_expandProperties kind source ps).bind fun _ hs => yields_pure (.cons key h hs)
termination_by structural x => x
end

end

end IndicatorCompiler.NormalForm
