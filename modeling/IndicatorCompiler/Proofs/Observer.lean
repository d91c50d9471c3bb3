import IndicatorCompiler.Script.Syntax.Pattern

/-!
# Observing trees

Many facts about a script are about what stands where: which names are used outside of their scope,
which literals there are, what is declared in front of a use.  An `Observer` notes such things along
a tree.  It carries what is known at each place, and says how that changes on the way down into
lists, loops and functions, and from one statement to the next.

`Observer.Compares` says that one observer notes no more than another; it is shown once for all
trees.
-/

namespace IndicatorCompiler.Script

/-- What is noted along a tree, with what is known at each place. -/
structure Observer (Γ α : Type) where
  /-- Noted where a name is used. -/
  name : Γ → String → List α
  /-- Noted at a string literal. -/
  text : Γ → String → List α
  /-- Noted at a member that is accessed by name. -/
  member : Γ → Expr → String → List α
  /-- Noted at the key of a property that is destructured. -/
  key : Γ → String → List α
  /-- Noted at a declaration. -/
  declare : Γ → VarKind → List String → List α
  /-- Known inside a list of statements. -/
  enter : List Stmt → Γ → Γ
  /-- Known inside a statement. -/
  within : Stmt → Γ → Γ
  /-- Known behind a statement, in the same list. -/
  behind : Stmt → Γ → Γ
  /-- Known where the names of a loop or a function are bound. -/
  bind : List String → Γ → Γ
  /-- Known in what a loop evaluates again and again. -/
  again : Γ → Γ
  /-- Known in a function. -/
  inside : Γ → Γ
  /-- The defaults of a destructuring assignment are noted once for every name that they stand
  above, and not once for all. -/
  perName : Bool

/-- Known inside the body of a loop or a branch; without braces it is a list of one statement. -/
def Observer.body {Γ α : Type} (o : Observer Γ α) : Stmt → Γ → Γ
  | .block _, γ => γ
  | stmt, γ => o.within stmt (o.enter [stmt] γ)

/-- The names that the start of a counting loop binds. -/
def ForInit.boundNames : ForInit → List String
  | .declare _ decls => decls.flatMap (·.id.boundNames)
  | .expr _ => []

/-- The names that are bound inside a function. -/
def Function.boundNames (f : Function) : List String :=
  f.name.toList ++ f.params.flatMap Pattern.boundNames

section

variable {Γ α : Type}

mutual
/-- What is noted in an expression. -/
def Expr.observe (o : Observer Γ α) (γ : Γ) : Expr → List α
  | .ident name => o.name γ name
  | .lit (.str value) => o.text γ value
  | .lit _ => []
  | .array items => observeExprs o γ items
  | .object properties => observeProperties o γ properties
  | .function f => f.observe o γ
  | .unary _ arg | .update _ _ arg => arg.observe o γ
  | .binary _ left right => left.observe o γ ++ right.observe o γ
  | .assign _ target value =>
    (if o.perName then observeParts o γ [] target else target.observe o γ) ++ value.observe o γ
  | .conditional test consequent alternate =>
    test.observe o γ ++ consequent.observe o γ ++ alternate.observe o γ
  | .call callee args | .new callee args => callee.observe o γ ++ observeExprs o γ args
  | .member base name => o.member γ base name ++ base.observe o γ
  | .index base i => base.observe o γ ++ i.observe o γ
  | .sequence items => observeExprs o γ items
  | .spread arg => arg.observe o γ

/-- What is noted in several expressions. -/
def observeExprs (o : Observer Γ α) (γ : Γ) : List Expr → List α
  | [] => []
  | e :: rest => e.observe o γ ++ observeExprs o γ rest

/-- What is noted in an expression, if there is one. -/
def observeExpr? (o : Observer Γ α) (γ : Γ) : Option Expr → List α
  | none => []
  | some e => e.observe o γ

/-- What is noted in properties. -/
def observeProperties (o : Observer Γ α) (γ : Γ) : List Property → List α
  | [] => []
  | ⟨key, value, _⟩ :: rest => key.observe o γ ++ value.observe o γ ++ observeProperties o γ rest

/-- What is noted in a key. -/
def PropertyKey.observe (o : Observer Γ α) (γ : Γ) : PropertyKey → List α
  | .name _ => []
  | .str _ => []
  | .computed key => key.observe o γ

/-- What is noted in the target of an assignment, at each name together with the keys and defaults
above it. -/
def observeParts (o : Observer Γ α) (γ : Γ) (defaults : List α) : Expr → List α
  | .ident name => o.name γ name ++ defaults
  | .member base name => o.member γ base name ++ base.observe o γ
  | .index base i => base.observe o γ ++ i.observe o γ
  | .array items => observeItemParts o γ defaults items
  | .object properties => observePropertyParts o γ defaults properties
  | .assign .assign target value => observeParts o γ (defaults ++ value.observe o γ) target
  | .spread arg => observeParts o γ defaults arg
  | _ => []

/-- What is noted in elements that are assigned to. -/
def observeItemParts (o : Observer Γ α) (γ : Γ) (defaults : List α) : List Expr → List α
  | [] => []
  | e :: rest => observeParts o γ defaults e ++ observeItemParts o γ defaults rest

/-- What is noted in properties that are assigned to. -/
def observePropertyParts (o : Observer Γ α) (γ : Γ) (defaults : List α) : List Property → List α
  | [] => []
  | ⟨.name key, value, _⟩ :: rest | ⟨.str key, value, _⟩ :: rest =>
    observeParts o γ (defaults ++ o.key γ key) value ++ observePropertyParts o γ defaults rest
  | ⟨.computed _, _, _⟩ :: rest => observePropertyParts o γ defaults rest

/-- What is noted in a function. -/
def Function.observe (o : Observer Γ α) (γ : Γ) : Function → List α
  | ⟨name, params, body, arrow⟩ =>
    observePatterns o (o.bind (Function.boundNames ⟨name, params, body, arrow⟩) (o.inside γ))
      params ++
      body.observe o (o.bind (Function.boundNames ⟨name, params, body, arrow⟩) (o.inside γ))

/-- What is noted in a function body. -/
def FunctionBody.observe (o : Observer Γ α) (γ : Γ) : FunctionBody → List α
  | .block body => observeStmts o (o.enter body γ) body
  | .expr value => value.observe o γ

/-- What is noted in a pattern: what stands in its defaults. -/
def Pattern.observe (o : Observer Γ α) (γ : Γ) : Pattern → List α
  | .ident _ => []
  | .array items => observePatternItems o γ items
  | .object properties => observePatternProperties o γ properties
  | .withDefault target value => target.observe o γ ++ value.observe o γ
  | .rest target => target.observe o γ

/-- What is noted in several patterns. -/
def observePatterns (o : Observer Γ α) (γ : Γ) : List Pattern → List α
  | [] => []
  | pattern :: rest => pattern.observe o γ ++ observePatterns o γ rest

/-- What is noted in the elements of a pattern. -/
def observePatternItems (o : Observer Γ α) (γ : Γ) : List (Option Pattern) → List α
  | [] => []
  | none :: rest => observePatternItems o γ rest
  | some pattern :: rest => pattern.observe o γ ++ observePatternItems o γ rest

/-- What is noted in the properties of a pattern. -/
def observePatternProperties (o : Observer Γ α) (γ : Γ) : List PatternProperty → List α
  | [] => []
  | ⟨_, value⟩ :: rest => value.observe o γ ++ observePatternProperties o γ rest

/-- What is noted in a statement. -/
def Stmt.observe (o : Observer Γ α) (γ : Γ) : Stmt → List α
  | .var kind decls => observeDeclarators o γ kind decls
  | .function f => f.observe o γ
  | .ret value => observeExpr? o γ value
  | .ifElse test consequent alternate =>
    test.observe o γ ++ consequent.observe o (o.body consequent γ) ++ (match alternate with
        | none => []
        | some stmt => stmt.observe o (o.body stmt γ))
  | .forLoop init test update body =>
    (match init with
      | none =>
        observeExpr? o (o.again γ) test ++ observeExpr? o (o.again γ) update ++
          body.observe o (o.body body (o.again γ))
      | some init =>
        init.observe o (o.bind init.boundNames γ) ++
          (observeExpr? o (o.again (o.bind init.boundNames γ)) test ++
            observeExpr? o (o.again (o.bind init.boundNames γ)) update ++
            body.observe o (o.body body (o.again (o.bind init.boundNames γ)))))
  | .forEach _ kind pattern right body =>
    right.observe o γ ++ (match kind with
        | none => pattern.boundNames.flatMap (o.name γ) ++ pattern.observe o (o.again γ) ++
            body.observe o (o.body body (o.again γ))
        | some kind => o.declare γ kind pattern.boundNames ++
            pattern.observe o (o.again (o.bind pattern.boundNames γ)) ++
            body.observe o (o.body body (o.again (o.bind pattern.boundNames γ))))
  | .whileLoop test body => test.observe o (o.again γ) ++ body.observe o (o.body body (o.again γ))
  | .block body => observeStmts o (o.enter body γ) body
  | .expr value => value.observe o γ
  | .breakLoop | .continueLoop | .empty => []

/-- What is noted in statements, from one to the next. -/
def observeStmts (o : Observer Γ α) (γ : Γ) : List Stmt → List α
  | [] => []
  | stmt :: rest => stmt.observe o (o.within stmt γ) ++ observeStmts o (o.behind stmt γ) rest

/-- What is noted in bindings. -/
def observeDeclarators (o : Observer Γ α) (γ : Γ) (kind : VarKind) : List Declarator → List α
  | [] => []
  | ⟨id, init⟩ :: rest =>
    o.declare γ kind id.boundNames ++ id.observe o γ ++ observeExpr? o γ init ++
      observeDeclarators o γ kind rest

/-- What is noted in what a loop starts with. -/
def ForInit.observe (o : Observer Γ α) (γ : Γ) : ForInit → List α
  | .declare kind decls => observeDeclarators o γ kind decls
  | .expr value => value.observe o γ
end

theorem observeExprs_append (o : Observer Γ α) (γ : Γ) (a b : List Expr) :
    observeExprs o γ (a ++ b) = observeExprs o γ a ++ observeExprs o γ b := by
  induction a with
  | nil => rfl
  | cons e a ih => rw [List.cons_append, observeExprs, observeExprs, ih, List.append_assoc]

/-- Known behind statements, in the same list. -/
def Observer.past (o : Observer Γ α) (γ : Γ) (stmts : List Stmt) : Γ :=
  stmts.foldl (fun γ stmt => o.behind stmt γ) γ

theorem observeStmts_append (o : Observer Γ α) (γ : Γ) (a b : List Stmt) :
    observeStmts o γ (a ++ b) = observeStmts o γ a ++ observeStmts o (o.past γ a) b := by
  induction a generalizing γ with
  | nil => rfl
  | cons stmt a ih =>
    rw [List.cons_append, observeStmts, observeStmts, ih, List.append_assoc]
    rfl

end

/-! ## Comparing observers -/

/-- At related places the first observer notes no more than the second, in the sense of `le`. -/
structure Observer.Compares {Γ Δ α β : Type} (o : Observer Γ α) (o' : Observer Δ β)
    (R : Γ → Δ → Prop) (le : List α → List β → Prop) : Prop where
  nil : le [] []
  append {a c : List α} {b d : List β} : le a b → le c d → le (a ++ c) (b ++ d)
  name {γ : Γ} {δ : Δ} (x : String) : R γ δ → le (o.name γ x) (o'.name δ x)
  text {γ : Γ} {δ : Δ} (value : String) : R γ δ → le (o.text γ value) (o'.text δ value)
  member {γ : Γ} {δ : Δ} (base : Expr) (x : String) : R γ δ →
    le (o.member γ base x) (o'.member δ base x)
  key {γ : Γ} {δ : Δ} (x : String) : R γ δ → le (o.key γ x) (o'.key δ x)
  declare {γ : Γ} {δ : Δ} (kind : VarKind) (names : List String) :
    R γ δ → le (o.declare γ kind names) (o'.declare δ kind names)
  enter {γ : Γ} {δ : Δ} (stmts : List Stmt) : R γ δ → R (o.enter stmts γ) (o'.enter stmts δ)
  within {γ : Γ} {δ : Δ} (stmt : Stmt) : R γ δ → R (o.within stmt γ) (o'.within stmt δ)
  behind {γ : Γ} {δ : Δ} (stmt : Stmt) : R γ δ → R (o.behind stmt γ) (o'.behind stmt δ)
  bind {γ : Γ} {δ : Δ} (names : List String) : R γ δ → R (o.bind names γ) (o'.bind names δ)
  again {γ : Γ} {δ : Δ} : R γ δ → R (o.again γ) (o'.again δ)
  inside {γ : Γ} {δ : Δ} : R γ δ → R (o.inside γ) (o'.inside δ)
  perName : o.perName = o'.perName

namespace Observer.Compares

variable {Γ Δ α β : Type} {o : Observer Γ α} {o' : Observer Δ β} {R : Γ → Δ → Prop}
  {le : List α → List β → Prop} {γ : Γ} {δ : Δ} (c : o.Compares o' R le)
include c

theorem body (stmt : Stmt) (h : R γ δ) : R (o.body stmt γ) (o'.body stmt δ) := by
  cases stmt with
  | block _ => exact h
  | _ => exact c.within _ (c.enter _ h)

theorem names (h : R γ δ) (xs : List String) :
    le (xs.flatMap (o.name γ)) (xs.flatMap (o'.name δ)) := by
  induction xs with
  | nil => exact c.nil
  | cons x xs ih => simpa only [List.flatMap_cons] using c.append (c.name x h) ih

mutual
theorem expr : (e : Expr) → ∀ {γ δ}, R γ δ → le (e.observe o γ) (e.observe o' δ)
  | .ident x, _, _, h => c.name x h
  | .lit (.str value), _, _, h => c.text value h
  | .lit (.num _), _, _, _ | .lit (.bool _), _, _, _ | .lit .null, _, _, _ => c.nil
  | .array items, _, _, h => exprs items h
  | .object ps, _, _, h => properties ps h
  | .function f, _, _, h => function f h
  | .unary _ arg, _, _, h | .update _ _ arg, _, _, h => expr arg h
  | .binary _ left right, _, _, h => c.append (expr left h) (expr right h)
  | .assign _ target value, _, _, h => by
    unfold Expr.observe
    refine c.append ?_ (expr value h)
    rw [← c.perName]
    split
    · exact parts target h c.nil
    · exact expr target h
  | .conditional test consequent alternate, _, _, h =>
    c.append (c.append (expr test h) (expr consequent h)) (expr alternate h)
  | .call callee args, _, _, h
  | .new callee args, _, _, h => c.append (expr callee h) (exprs args h)
  | .member base x, _, _, h => c.append (c.member base x h) (expr base h)
  | .index base i, _, _, h => c.append (expr base h) (expr i h)
  | .sequence items, _, _, h => exprs items h
  | .spread arg, _, _, h => expr arg h

theorem exprs : (es : List Expr) → ∀ {γ δ}, R γ δ → le (observeExprs o γ es) (observeExprs o' δ es)
  | [], _, _, _ => c.nil
  | e :: rest, _, _, h => c.append (expr e h) (exprs rest h)

theorem expr? : (e : Option Expr) → ∀ {γ δ}, R γ δ → le (observeExpr? o γ e) (observeExpr? o' δ e)
  | none, _, _, _ => c.nil
  | some e, _, _, h => expr e h

theorem properties : (ps : List Property) → ∀ {γ δ}, R γ δ →
    le (observeProperties o γ ps) (observeProperties o' δ ps)
  | [], _, _, _ => c.nil
  | ⟨key, value, _⟩ :: rest, _, _, h =>
    c.append (c.append (propertyKey key h) (expr value h)) (properties rest h)

theorem propertyKey : (k : PropertyKey) → ∀ {γ δ}, R γ δ → le (k.observe o γ) (k.observe o' δ)
  | .name _, _, _, _ => c.nil
  | .str _, _, _, _ => c.nil
  | .computed e, _, _, h => expr e h

theorem parts : (e : Expr) → ∀ {γ δ ds ds'}, R γ δ →
    le ds ds' → le (observeParts o γ ds e) (observeParts o' δ ds' e)
  | .ident x, _, _, _, _, h, hds => c.append (c.name x h) hds
  | .member base x, _, _, _, _, h, _ => c.append (c.member base x h) (expr base h)
  | .index base i, _, _, _, _, h, _ => c.append (expr base h) (expr i h)
  | .array items, _, _, _, _, h, hds => itemParts items h hds
  | .object ps, _, _, _, _, h, hds => propertyParts ps h hds
  | .assign .assign target value, _, _, _, _, h, hds => parts target h (c.append hds (expr value h))
  | .spread arg, _, _, _, _, h, hds => parts arg h hds
  | .assign .add _ _, _, _, _, _, _, _ | .assign .sub _ _, _, _, _, _, _, _
  | .assign .mul _ _, _, _, _, _, _, _ | .assign .div _ _, _, _, _, _, _, _
  | .assign .mod _ _, _, _, _, _, _, _ | .lit _, _, _, _, _, _, _ | .function _, _, _, _, _, _, _
  | .unary _ _, _, _, _, _, _, _ | .update _ _ _, _, _, _, _, _, _ | .binary _ _ _, _, _, _, _, _, _
  | .conditional _ _ _, _, _, _, _, _, _ | .call _ _, _, _, _, _, _, _ | .new _ _, _, _, _, _, _, _
  | .sequence _, _, _, _, _, _, _ => c.nil

theorem itemParts : (es : List Expr) → ∀ {γ δ ds ds'}, R γ δ → le ds ds' →
    le (observeItemParts o γ ds es) (observeItemParts o' δ ds' es)
  | [], _, _, _, _, _, _ => c.nil
  | e :: rest, _, _, _, _, h, hds => c.append (parts e h hds) (itemParts rest h hds)

theorem propertyParts : (ps : List Property) → ∀ {γ δ ds ds'}, R γ δ → le ds ds' →
    le (observePropertyParts o γ ds ps) (observePropertyParts o' δ ds' ps)
  | [], _, _, _, _, _, _ => c.nil
  | ⟨.name x, value, _⟩ :: rest, _, _, _, _, h, hds
  | ⟨.str x, value, _⟩ :: rest, _, _, _, _, h, hds =>
    c.append (parts value h (c.append hds (c.key x h))) (propertyParts rest h hds)
  | ⟨.computed _, _, _⟩ :: rest, _, _, _, _, h, hds => propertyParts rest h hds

theorem function : (f : Function) → ∀ {γ δ}, R γ δ → le (f.observe o γ) (f.observe o' δ)
  | ⟨_, params, body, _⟩, _, _, h =>
    have hinside := c.bind _ (c.inside h)
    c.append (patterns params hinside) (functionBody body hinside)

theorem functionBody : (b : FunctionBody) → ∀ {γ δ}, R γ δ → le (b.observe o γ) (b.observe o' δ)
  | .block body, _, _, h => stmts body (c.enter body h)
  | .expr value, _, _, h => expr value h

theorem pattern : (p : Pattern) → ∀ {γ δ}, R γ δ → le (p.observe o γ) (p.observe o' δ)
  | .ident _, _, _, _ => c.nil
  | .array items, _, _, h => patternItems items h
  | .object ps, _, _, h => patternProperties ps h
  | .withDefault target value, _, _, h => c.append (pattern target h) (expr value h)
  | .rest target, _, _, h => pattern target h

theorem patterns : (ps : List Pattern) → ∀ {γ δ}, R γ δ →
    le (observePatterns o γ ps) (observePatterns o' δ ps)
  | [], _, _, _ => c.nil
  | p :: rest, _, _, h => c.append (pattern p h) (patterns rest h)

theorem patternItems : (items : List (Option Pattern)) → ∀ {γ δ}, R γ δ →
    le (observePatternItems o γ items) (observePatternItems o' δ items)
  | [], _, _, _ => c.nil
  | none :: rest, _, _, h => patternItems rest h
  | some p :: rest, _, _, h => c.append (pattern p h) (patternItems rest h)

theorem patternProperties : (ps : List PatternProperty) → ∀ {γ δ}, R γ δ →
    le (observePatternProperties o γ ps) (observePatternProperties o' δ ps)
  | [], _, _, _ => c.nil
  | ⟨_, value⟩ :: rest, _, _, h => c.append (pattern value h) (patternProperties rest h)

theorem stmt : (s : Stmt) → ∀ {γ δ}, R γ δ → le (s.observe o γ) (s.observe o' δ)
  | .var kind decls, _, _, h => declarators kind decls h
  | .function f, _, _, h => function f h
  | .ret value, _, _, h => expr? value h
  | .ifElse test consequent none, _, _, h =>
    c.append (c.append (expr test h) (stmt consequent (c.body consequent h))) c.nil
  | .ifElse test consequent (some alternate), _, _, h =>
    c.append (c.append (expr test h) (stmt consequent (c.body consequent h)))
      (stmt alternate (c.body alternate h))
  | .forLoop none test update body, _, _, h =>
    have hagain := c.again h
    c.append (c.append (expr? test hagain) (expr? update hagain)) (stmt body (c.body body hagain))
  | .forLoop (some init) test update body, _, _, h =>
    have hagain := c.again (c.bind init.boundNames h)
    c.append (forInit init h) (c.append (c.append (expr? test hagain) (expr? update hagain))
      (stmt body (c.body body hagain)))
  | .forEach _ none target right body, _, _, h =>
    have hagain := c.again h
    c.append (expr right h) (c.append (c.append (c.names h _) (pattern target hagain))
      (stmt body (c.body body hagain)))
  | .forEach _ (some kind) target right body, _, _, h =>
    have hagain := c.again (c.bind target.boundNames h)
    c.append (expr right h) (c.append (c.append (c.declare kind _ h) (pattern target hagain))
      (stmt body (c.body body hagain)))
  | .whileLoop test body, _, _, h =>
    c.append (expr test (c.again h)) (stmt body (c.body body (c.again h)))
  | .block body, _, _, h => stmts body (c.enter body h)
  | .expr value, _, _, h => expr value h
  | .breakLoop, _, _, _ | .continueLoop, _, _, _ | .empty, _, _, _ => c.nil

theorem stmts : (ss : List Stmt) → ∀ {γ δ}, R γ δ → le (observeStmts o γ ss) (observeStmts o' δ ss)
  | [], _, _, _ => c.nil
  | s :: rest, _, _, h => c.append (stmt s (c.within s h)) (stmts rest (c.behind s h))

theorem declarators (kind : VarKind) : (ds : List Declarator) → ∀ {γ δ}, R γ δ →
    le (observeDeclarators o γ kind ds) (observeDeclarators o' δ kind ds)
  | [], _, _, _ => c.nil
  | ⟨id, init⟩ :: rest, _, _, h =>
    c.append (c.append (c.append (c.declare kind _ h) (pattern id h)) (expr? init h))
      (declarators kind rest h)

theorem forInit : (i : ForInit) → ∀ {γ δ}, R γ δ →
    le (i.observe o (o.bind i.boundNames γ)) (i.observe o' (o'.bind i.boundNames δ))
  | .declare kind decls, _, _, h => declarators kind decls (c.bind _ h)
  | .expr value, _, _, h => expr value (c.bind _ h)
end

end Observer.Compares

end IndicatorCompiler.Script
