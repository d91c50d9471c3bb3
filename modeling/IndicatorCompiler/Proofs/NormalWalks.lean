import IndicatorCompiler.Proofs.CallSites
import IndicatorCompiler.Proofs.NormalizedTwice

/-!
# Walks over normal forms

Normalisation makes a tree ready for a walk, apart from what it leaves as it is: the defaults of
parameters, and values that names are taken off.
-/

open Bool (and_intro and_elim_left)

namespace IndicatorCompiler.Script

/-! ## Sources -/

section

variable {root : String}

mutual
/-- In what can be read, only what can be assigned to is. -/
theorem walkable_expr {asElement} :
    (e : Expr) → e.WellFormed asElement → e.walkable ⟨root, false⟩ false = true
  | .ident _, _ => rfl
  | .lit _, _ => rfl
  | .array items, h => walkable_exprs items h
  | .object ps, h => walkable_properties ps h
  | .function f, h => walkable_function f h
  | .unary _ arg, h | .update _ _ arg, h => walkable_expr arg h
  | .binary _ left right, h => and_intro (walkable_expr left h.1) (walkable_expr right h.2)
  | .assign _ target value, h => and_intro (and_intro h.1 (walkable_expr target h.2.1))
    (walkable_expr value h.2.2)
  | .conditional test consequent alternate, h =>
    and_intro (and_intro (walkable_expr test h.1) (walkable_expr consequent h.2.1))
      (walkable_expr alternate h.2.2)
  | .call callee args, h
  | .new callee args, h => and_intro (walkable_expr callee h.1) (walkable_exprs args h.2)
  | .member base _, h => walkable_expr base h.1
  | .index base i, h => and_intro (walkable_expr base h.1) (walkable_expr i h.2)
  | .sequence items, h => walkable_exprs items h.2
  | .spread arg, h => walkable_expr arg h.2

theorem walkable_exprs {asElement} : (es : List Expr) → exprsWellFormed asElement es →
    walkableExprs ⟨root, false⟩ false es = true
  | [], _ => rfl
  | e :: rest, h => and_intro (walkable_expr e h.1) (walkable_exprs rest h.2)

theorem walkable_expr? : (e : Option Expr) → optionWellFormed e →
    walkableExpr? ⟨root, false⟩ false e = true
  | none, _ => rfl
  | some e, h => walkable_expr e h

theorem walkable_properties : (ps : List Property) → propertiesWellFormed ps →
    walkableProperties ⟨root, false⟩ false ps = true
  | [], _ => rfl
  | ⟨_, _, true⟩ :: rest, h => by
    obtain ⟨⟨_, -, rfl, rfl⟩, hrest⟩ := h
    exact walkable_properties rest hrest
  | ⟨key, value, false⟩ :: rest, h => by
    have hparts : key.WellFormed ∧ value.WellFormed false := h.1
    exact and_intro (and_intro (walkable_key key hparts.1) (walkable_expr value hparts.2))
      (walkable_properties rest h.2)

theorem walkable_key : (key : PropertyKey) → key.WellFormed →
    key.walkable ⟨root, false⟩ false = true
  | .name _, _ => rfl
  | .str _, _ => rfl
  | .computed e, h => walkable_expr e h

theorem walkable_function : (f : Function) → f.WellFormed → f.walkable ⟨root, false⟩ false = true
  | ⟨_, params, body, _⟩, h => and_intro (walkable_params params h.2.1) (walkable_body body h.2.2)

theorem walkable_body {arrow} : (body : FunctionBody) → body.WellFormed arrow →
    body.walkable ⟨root, false⟩ false = true
  | .block stmts, h => walkable_stmts stmts h
  | .expr value, h => walkable_expr value h.2

theorem walkable_params : (ps : List Pattern) → paramsWellFormed ps →
    walkableParams ⟨root, false⟩ ps = true
  | [], _ => rfl
  | p :: rest, h => and_intro (walkable_param p h.1) (walkable_params rest h.2)

theorem walkable_param : (p : Pattern) → p.WellFormed true true none →
    p.walkable ⟨root, false⟩ = true
  | .ident _, _ | .array _, _ | .object _, _ | .rest _, _ => rfl
  | .withDefault _ value, h => walkable_expr value h.2.2.2

theorem walkable_stmt : (stmt : Stmt) → stmt.WellFormed → stmt.walkable ⟨root, false⟩ false = true
  | .var _ decls, h => walkable_declarators decls h.2
  | .function f, h => walkable_function f h.2
  | .ret value, h => walkable_expr? value h
  | .ifElse test consequent none, h =>
    and_intro (and_intro (walkable_expr test h.1) (walkable_stmt consequent h.2.1)) rfl
  | .ifElse test consequent (some alternate), h =>
    and_intro (and_intro (walkable_expr test h.1) (walkable_stmt consequent h.2.1))
      (walkable_stmt alternate h.2.2)
  | .forLoop init test update body, h =>
    and_intro (and_intro (and_intro (walkable_init init h.1) (walkable_expr? test h.2.1))
      (walkable_expr? update h.2.2.1)) (walkable_stmt body h.2.2.2)
  | .forEach _ _ _ right body, h => and_intro (walkable_expr right h.2.1) (walkable_stmt body h.2.2)
  | .whileLoop test body, h => and_intro (walkable_expr test h.1) (walkable_stmt body h.2)
  | .block body, h => walkable_stmts body h
  | .expr value, h => walkable_expr value h
  | .breakLoop, _ | .continueLoop, _ | .empty, _ => rfl

theorem walkable_stmts : (stmts : List Stmt) → stmtsWellFormed stmts →
    walkableStmts ⟨root, false⟩ false stmts = true
  | [], _ => rfl
  | stmt :: rest, h => and_intro (walkable_stmt stmt h.1) (walkable_stmts rest h.2)

theorem walkable_init : (init : Option ForInit) → initWellFormed init →
    walkableInit ⟨root, false⟩ false init = true
  | none, _ => rfl
  | some (.declare _ decls), h => walkable_declarators decls h.2
  | some (.expr value), h => walkable_expr value h

theorem walkable_declarators {loop} : (ds : List Declarator) → declaratorsWellFormed ds →
    walkableDeclarators ⟨root, false⟩ false loop ds = true
  | [], _ => rfl
  | ⟨_, init⟩ :: rest, h => and_intro (walkable_expr? init h.2.1) (walkable_declarators rest h.2.2)
end

end

end IndicatorCompiler.Script

namespace IndicatorCompiler.NormalForm

open Script

/-! ## Normal forms -/

section

variable {c : Demand}

/-- What holds without a look at declarations, and with one if they are asked about, holds. -/
theorem demanded {P : Demand → Prop} (h : P ⟨c.root, false⟩) (hd : c.declarations = true → P c) :
    P c := by
  obtain ⟨root, declarations⟩ := c
  cases declarations with
  | false => exact h
  | true => exact hd rfl

theorem isAssignable_normal {root op e e'} (h : NormalExpr root e e')
    (he : Grammar.isAssignable op e = true) : Grammar.isAssignable op e' = true := by
  cases h <;> exact he

theorem walkable_single {stmt} (h : stmt.walkable c false = true) :
    walkableStmts c false [stmt] = true :=
  and_intro h rfl

theorem walkable_append {stmts more} (h : walkableStmts c false stmts = true)
    (hmore : walkableStmts c false more = true) : walkableStmts c false (stmts ++ more) = true := by
  induction stmts with
  | nil => exact hmore
  | cons stmt stmts ih => exact and_intro (and_elim_left h) (ih (Bool.and_elim_right h))

theorem walkable_asBlock {stmts} (h : walkableStmts c false stmts = true) :
    (asBlock stmts).walkable c false = true := by
  fun_cases asBlock stmts with
  | case1 body => exact and_elim_left h
  | case2 => exact h

theorem walkable_asAlternate {stmts} (h : walkableStmts c false stmts = true) :
    (asAlternate stmts).walkable c false = true := by
  fun_cases asAlternate stmts with
  | case1 test consequent alternate => exact and_elim_left h
  | case2 => exact walkable_asBlock h

theorem walkable_binding {loop id init ds} (hmeets : c.meets loop id init = true)
    (hinit : walkableExpr? c false init = true) (hds : walkableDeclarators c false loop ds = true) :
    walkableDeclarators c false loop (⟨id, init⟩ :: ds) = true := by
  simp [walkableDeclarators, hmeets, hinit, hds]

theorem walkable_declared {kind id init} (hmeets : c.meets false id init = true)
    (hinit : walkableExpr? c false init = true) :
    walkableStmts c false [declared kind id init] = true :=
  walkable_single (walkable_binding hmeets hinit rfl)

theorem isIdent_eq_false {pattern : Pattern} (h : ∀ x, pattern ≠ .ident x) :
    pattern.isIdent = false := by
  cases pattern with
  | ident x => exact absurd rfl (h x)
  | _ => rfl

mutual
/-- The normal form of what can be read is ready, if declarations are asked about then provided that
the parts that stay as they are are ready. -/
theorem walkable_normalExpr {asElement e e'} : NormalExpr c.root e e' →
    e.WellFormed asElement → (c.declarations = true → e.walkable c true = true) →
    e'.walkable c false = true
  | .ident _, _, _ => rfl
  | .lit _, _, _ => rfl
  | .array hs, h, hd => walkable_normalExprs hs h hd
  | .sequence hs, h, hd => walkable_normalExprs hs h.2 hd
  | .object hs, h, hd => walkable_normalProperties hs h hd
  | .function hf, h, hd => walkable_normalFunction hf h hd
  | .unary _ he, h, hd | .update _ _ he, h, hd => (walkable_normalExpr he h hd :)
  | .spread he, h, hd => (walkable_normalExpr he h.2 hd :)
  | .binary _ hl hr, h, hd => and_intro (walkable_normalExpr hl h.1 (fst_of_and hd))
    (walkable_normalExpr hr h.2 (snd_of_and hd))
  | .assign _ ht hv, h, hd => and_intro (and_intro (isAssignable_normal ht h.1)
    (walkable_normalExpr ht h.2.1 (snd_of_and (fst_of_and hd))))
    (walkable_normalExpr hv h.2.2 (snd_of_and hd))
  | .conditional ht hc ha, h, hd => and_intro
    (and_intro (walkable_normalExpr ht h.1 (fst_of_and (fst_of_and hd)))
      (walkable_normalExpr hc h.2.1 (snd_of_and (fst_of_and hd))))
    (walkable_normalExpr ha h.2.2 (snd_of_and hd))
  | .call hf hs, h, hd | .new hf hs, h, hd => and_intro (walkable_normalExpr hf h.1 (fst_of_and hd))
    (walkable_normalExprs hs h.2 (snd_of_and hd))
  | .member _ he, h, hd => (walkable_normalExpr he h.1 hd :)
  | .index hb hi, h, hd => and_intro (walkable_normalExpr hb h.1 (fst_of_and hd))
    (walkable_normalExpr hi h.2 (snd_of_and hd))
termination_by structural e

theorem walkable_normalExprs {asElement es es'} : NormalExprs c.root es es' →
    exprsWellFormed asElement es → (c.declarations = true → walkableExprs c true es = true) →
    walkableExprs c false es' = true
  | .nil, _, _ => rfl
  | .cons he hs, h, hd => and_intro (walkable_normalExpr he h.1 (fst_of_and hd))
    (walkable_normalExprs hs h.2 (snd_of_and hd))
termination_by structural es

theorem walkable_normalExpr? {e e'} : NormalExpr? c.root e e' → optionWellFormed e →
    (c.declarations = true → walkableExpr? c true e = true) → walkableExpr? c false e' = true
  | .none, _, _ => rfl
  | .some he, h, hd => walkable_normalExpr he h hd
termination_by structural e

theorem walkable_normalProperties {ps ps'} : NormalProperties c.root ps ps' →
    propertiesWellFormed ps → (c.declarations = true → walkableProperties c true ps = true) →
    walkableProperties c false ps' = true
  | .nil, _, _ => rfl
  | .cons true hk hv hs, h, hd => by
    have hrest := walkable_normalProperties hs h.2 (snd_of_and hd)
    obtain ⟨⟨_, -, rfl, rfl⟩, -⟩ := h
    cases hk
    cases hv
    exact hrest
  | @NormalProperties.cons _ key _ value _ _ _ false hk hv hs, h, hd => by
    have hparts : key.WellFormed ∧ value.WellFormed false := h.1
    exact and_intro (and_intro (walkable_normalKey hk hparts.1 (fst_of_and (fst_of_and hd)))
      (walkable_normalExpr hv hparts.2 (snd_of_and (fst_of_and hd))))
      (walkable_normalProperties hs h.2 (snd_of_and hd))
termination_by structural ps

theorem walkable_normalKey {key key'} : NormalKey c.root key key' → key.WellFormed →
    (c.declarations = true → key.walkable c true = true) → key'.walkable c false = true
  | .name _, _, _ => rfl
  | .str _, _, _ => rfl
  | .computed he, h, hd => walkable_normalExpr he h hd
termination_by structural key

theorem walkable_normalFunction {f f'} : NormalFunction c.root f f' → f.WellFormed →
    (c.declarations = true → f.walkable c true = true) → f'.walkable c false = true
  | .block _ params _ hs, h, hd => and_intro
    (demanded (P := fun c => walkableParams c params = true) (walkable_params params h.2.1)
      (fst_of_and hd)) (walkable_normalStmts hs h.2.2 (snd_of_and hd))
  | .expr _ params _ he, h, hd => and_intro
    (demanded (P := fun c => walkableParams c params = true) (walkable_params params h.2.1)
      (fst_of_and hd)) (walkable_single (walkable_normalExpr he h.2.2.2 (snd_of_and hd)))
termination_by structural f

theorem walkable_normalStmt {stmt stmts} : NormalStmt c.root stmt stmts →
    stmt.WellFormed → (c.declarations = true → stmt.walkable c true = true) →
    walkableStmts c false stmts = true
  | .var hs, h, hd => walkable_normalDeclarators hs h.2 hd
  | .function hf, h, hd => walkable_single (walkable_normalFunction hf h.2 hd)
  | .ret he, h, hd => walkable_single (walkable_normalExpr? he h hd)
  | .ifThen ht hc, h, hd => walkable_single (and_intro
    (and_intro (walkable_normalExpr ht h.1 (fst_of_and (fst_of_and hd)))
      (walkable_asBlock (walkable_normalStmt hc h.2.1 (snd_of_and (fst_of_and hd))))) rfl)
  | .ifElse ht hc ha, h, hd => walkable_single (and_intro
    (and_intro (walkable_normalExpr ht h.1 (fst_of_and (fst_of_and hd)))
      (walkable_asBlock (walkable_normalStmt hc h.2.1 (snd_of_and (fst_of_and hd)))))
    (walkable_asAlternate (walkable_normalStmt ha h.2.2 (snd_of_and hd))))
  | .forLoop hi ht hu hb, h, hd => walkable_single (and_intro (and_intro (and_intro
    (walkable_normalInit hi h.1 (fst_of_and (fst_of_and (fst_of_and hd))))
    (walkable_normalExpr? ht h.2.1 (snd_of_and (fst_of_and (fst_of_and hd)))))
    (walkable_normalExpr? hu h.2.2.1 (snd_of_and (fst_of_and hd))))
    (walkable_asBlock (walkable_normalStmt hb h.2.2.2 (snd_of_and hd))))
  | .forEach _ _ _ hr hb, h, hd => walkable_single (and_intro
    (walkable_normalExpr hr h.2.1 (fst_of_and hd))
    (walkable_asBlock (walkable_normalStmt hb h.2.2 (snd_of_and hd))))
  | .whileLoop ht hb, h, hd => walkable_single (and_intro
    (walkable_normalExpr ht h.1 (fst_of_and hd))
    (walkable_asBlock (walkable_normalStmt hb h.2 (snd_of_and hd))))
  | .block hs, h, hd => walkable_single (walkable_normalStmts hs h hd)
  | .expr he, h, hd => walkable_single (walkable_normalExpr he h hd)
  | .empty, _, _ | .breakLoop, _, _ | .continueLoop, _, _ => rfl
termination_by structural stmt

theorem walkable_normalStmts {stmts stmts'} : NormalStmts c.root stmts stmts' →
    stmtsWellFormed stmts → (c.declarations = true → walkableStmts c true stmts = true) →
    walkableStmts c false stmts' = true
  | .nil, _, _ => rfl
  | .cons hstmt hs, h, hd => walkable_append (walkable_normalStmt hstmt h.1 (fst_of_and hd))
    (walkable_normalStmts hs h.2 (snd_of_and hd))
termination_by structural stmts

theorem walkable_normalInit {init init'} : NormalInit? c.root init init' →
    initWellFormed init → (c.declarations = true → walkableInit c true init = true) →
    walkableInit c false init' = true
  | .none, _, _ => rfl
  | .declare _ hs, h, hd => walkable_normalBindings hs h.2 hd
  | .expr he, h, hd => walkable_normalExpr he h hd
termination_by structural init

theorem walkable_normalBindings {ds ds'} : NormalBindings c.root ds ds' →
    declaratorsWellFormed ds → (c.declarations = true → walkableDeclarators c true true ds = true) →
    walkableDeclarators c false true ds' = true
  | .nil, _, _ => rfl
  | .cons _ he hs, h, hd => walkable_binding rfl
    (walkable_normalExpr? he h.2.1 (snd_of_and (fst_of_and hd)))
    (walkable_normalBindings hs h.2.2 (snd_of_and hd))
termination_by structural ds

theorem walkable_normalDeclarators {kind ds stmts} :
    NormalDeclarators c.root kind ds stmts → declaratorsWellFormed ds →
    (c.declarations = true → walkableDeclarators c true false ds = true) →
    walkableStmts c false stmts = true
  | .nil _, _, _ => rfl
  | .cons (d := ⟨_, _⟩) hdecl hs, h, hd =>
    walkable_append (walkable_normalDeclarator hdecl h.1 h.2.1 (fst_of_and hd))
      (walkable_normalDeclarators hs h.2.2 (snd_of_and hd))
termination_by structural ds

theorem walkable_normalDeclarator {kind : VarKind} {d stmts} :
    NormalDeclarator c.root kind d stmts → d.id.WellFormed true false none →
      optionWellFormed d.init →
    (c.declarations = true →
      ((!c.declarations || c.meets false d.id d.init || true && d.id.splittable c) &&
      walkableExpr? c (true && !c.leaves false d.id d.init) d.init) = true) →
    walkableStmts c false stmts = true
  | @NormalDeclarator.function _ _ _ _ ⟨_, _, _, _⟩ hf, _, h, hd =>
    walkable_single (walkable_normalFunction hf h (snd_of_and hd) :)
  | .name _ _ he, _, h, hd => walkable_declared rfl (walkable_normalExpr? he h (snd_of_and hd))
  | @NormalDeclarator.takenOff _ _ pattern init hpattern hrooted, _, h, hd => by
    have hleaves : c.leaves false pattern (some init) = true := by
      simp [Demand.leaves, isIdent_eq_false hpattern, hrooted]
    have hleft := snd_of_and hd
    rw [hleaves] at hleft
    exact walkable_declared (by simp [Demand.meets, hrooted])
      (demanded (P := fun c => walkableExpr? c false (some init) = true) (walkable_expr? _ h) hleft)
  | @NormalDeclarator.split _ _ _ pattern init init' _ hpattern hrooted he hs, hid, h, hd => by
    have hleaves : c.leaves false pattern (some init) = false := by simp [Demand.leaves, hrooted]
    have hvalue := snd_of_and hd
    rw [hleaves] at hvalue
    have hsplit (hasked : c.declarations = true) : pattern.splittable c = true := by
      simpa [Demand.meets, hasked, isIdent_eq_false hpattern, hrooted] using fst_of_and hd hasked
    have htemp : walkableExpr? c false (some init') = true := walkable_normalExpr he h hvalue
    exact walkable_append (walkable_declared rfl htemp) (walkable_expanded hs hid rfl hsplit)
termination_by structural d

theorem walkable_expanded {isDeclared asElement key kind source pattern stmts} :
    Expanded c.root kind source pattern stmts → pattern.WellFormed isDeclared asElement key →
    source.walkable c false = true → (c.declarations = true → pattern.splittable c = true) →
    walkableStmts c false stmts = true
  | .ident _, _, hs, _ => walkable_declared rfl hs
  | .withDefault hv he, h, hs, hd => walkable_expanded he h.2.2.1
    (and_intro hs (walkable_normalExpr hv h.2.2.2 (snd_of_and hd))) (fst_of_and hd)
  | .array he, h, hs, hd => walkable_expandedItems he h hs hd
  | .object he, h, hs, hd => walkable_expandedProperties he h hs hd
termination_by structural pattern

theorem walkable_expandedItems {isDeclared kind source i items stmts} :
    ExpandedItems c.root kind source i items stmts → patternItemsWellFormed isDeclared items →
    source.walkable c false = true → (c.declarations = true → splittableItems c items = true) →
    walkableStmts c false stmts = true
  | .nil _ _ _, _, _, _ => rfl
  | .hole hmore, h, hs, hd => walkable_expandedItems hmore h.2 hs hd
  | .rest he hmore, h, hs, hd => walkable_append
    (walkable_expanded he h.1.2 (and_intro hs rfl) (fst_of_and hd))
    (walkable_expandedItems hmore h.2 hs (snd_of_and hd))
  | .item he hmore, h, hs, hd => walkable_append
    (walkable_expanded he h.1 (and_intro hs rfl) (fst_of_and hd))
    (walkable_expandedItems hmore h.2 hs (snd_of_and hd))
termination_by structural items

theorem walkable_expandedProperties {isDeclared kind source ps stmts} :
    ExpandedProperties c.root kind source ps stmts → patternPropertiesWellFormed isDeclared ps →
    source.walkable c false = true → (c.declarations = true → splittableProperties c ps = true) →
    walkableStmts c false stmts = true
  | .nil _ _, _, _, _ => rfl
  | .cons _ he hmore, h, hs, hd => walkable_append (walkable_expanded he h.2.1 hs (fst_of_and hd))
    (walkable_expandedProperties hmore h.2.2 hs (snd_of_and hd))
termination_by structural ps
end

end

end IndicatorCompiler.NormalForm

namespace IndicatorCompiler.SlotForm

open Script Survey NormalForm

/-! ## Surveyed scripts -/

/-- The body of the entry function can be read. -/
theorem entry_wellFormed {program} (h : stmtsWellFormed program.body) {root body}
    (hentry : entry program = .ok ⟨root, body⟩) : stmtsWellFormed body := by
  unfold entry at hentry
  split at hentry
  · cases hentry
  · rename_i f hfilter
    have hmem : Stmt.expr (.function f) ∈ program.body :=
      List.mem_of_mem_filter (hfilter ▸ List.mem_singleton_self _)
    obtain ⟨_, params, fbody, _⟩ := f
    have hf : fbody.WellFormed _ := (stmtsWellFormed_iff.mp h _ hmem).2.2
    cases hroot : rootName params with
    | error e => simp [hroot, bind, Except.bind] at hentry
    | ok r =>
      simp [hroot, bind, Except.bind, pure, Except.pure] at hentry
      obtain ⟨-, rfl⟩ := hentry
      cases fbody with
      | block stmts => exact hf
      | expr value => exact ⟨hf.2, trivial⟩
  · cases hentry
  · cases hentry

/-- **What the passes rely on.**  A walk over a surveyed script always has a statement to hoist in
front of, and comes to nothing that cannot be assigned to.  It fails at a declaration only if
something that normalisation leaves as it is, which is the default of a parameter or a value that
names are taken off, has a declaration of its own that takes another value apart. -/
theorem slotUnit_failures {source : String} {program : Program} {root : String} {body : List Stmt}
    {s : Surveyed} (hprogram : Program.ofSource source = .ok program)
    (hentry : entry program = .ok ⟨root, body⟩) (hsurvey : survey program = .ok s) :
    (walkableStmts ⟨root, true⟩ true body = true → walkableStmts ⟨root, true⟩ false s.body = true) ∧
      ∀ e, slotUnit s.body s.scopes = .error e → e.cause ≠ .nothingToHoistBefore ∧
        e.cause ≠ .invalidTarget ∧
          (walkableStmts ⟨root, true⟩ true body = true → e.cause ≠ .destructuringDeclaration) := by
  obtain ⟨source', hentry', hnormal⟩ := survey_eq_ok hsurvey
  rw [hentry] at hentry'
  cases hentry'
  have hwell := entry_wellFormed (Program.wellFormed_of_ofSource hprogram) hentry
  let kept : TempInvariant s.rootName := ⟨(·.rootName = s.rootName), fun _ h => h, fun _ h => h⟩
  obtain ⟨hroot, hstmts⟩ := yields_normalStmts kept body (knownScopes_rootName _ _ _) hnormal
  have hlax : walkableStmts ⟨s.rootName, false⟩ false s.body = true :=
    walkable_normalStmts hstmts hwell nofun
  have hstrict (h : walkableStmts ⟨s.rootName, true⟩ true body = true) :
      walkableStmts ⟨s.rootName, true⟩ false s.body = true :=
      walkable_normalStmts hstmts hwell fun _ => h
  refine ⟨hstrict, fun e he => ?_⟩
  have hblame := slotUnit_error hlax hroot he
  refine ⟨fun hcause => ?_, fun hcause => ?_, fun h hcause => ?_⟩
  · rw [hcause] at hblame
    cases hblame
  · rw [hcause] at hblame
    cases hblame
  · have hblame := slotUnit_error (hstrict h) hroot he
    rw [hcause] at hblame
    cases hblame

/-- The walk over the script of the source fails for the cause. -/
def failsFor (source : String) (cause : Cause) : Bool :=
  (Program.ofSource source).toOption.any fun program => (survey program).toOption.any fun s =>
    match slotUnit s.body s.scopes with
    | .ok _ => false
    | .error e => e.cause == cause

theorem exists_of_failsFor {source cause} (h : failsFor source cause = true) :
    ∃ program s e, Program.ofSource source = .ok program ∧ survey program = .ok s ∧
      slotUnit s.body s.scopes = .error e ∧ e.cause = cause := by
  obtain ⟨program, hprogram, h⟩ := eq_ok_of_any h
  obtain ⟨s, hsurvey, h⟩ := eq_ok_of_any h
  split at h
  · cases h
  · rename_i e hunit
    exact ⟨program, s, e, hprogram, hsurvey, hunit, by simpa using h⟩

/-- Values are taken apart in an argument, in a key and in the head of a loop, and names are taken
off the context; then the context is assigned to. -/
def takenApart : String :=
  "($) => \x7b const [x] = f((p = 1) => \x7b " ++
  "let \x7b a, b: [c = 2] \x7d = \x7b [(() => \x7b let [d] = p; return d; \x7d)()]: 1 \x7d; " ++
  "return c; \x7d); const \x7b close \x7d = $.data; " ++
  "for (let [i, j] = x; i < j; i++) \x7b $ = close; \x7d \x7d"

theorem takenApart_failures : ∃ program body s e, Program.ofSource takenApart = .ok program ∧
    entry program = .ok ⟨"$", body⟩ ∧ survey program = .ok s ∧
    walkableStmts ⟨"$", true⟩ true body = true ∧ walkableStmts ⟨"$", true⟩ false s.body = true ∧
    slotUnit s.body s.scopes = .error e ∧ e.cause ≠ .nothingToHoistBefore ∧
      e.cause ≠ .invalidTarget ∧
    e.cause ≠ .destructuringDeclaration := by
  have hcs : takenApart.toList = _ :=
    toList_append_of (toList_append_of (toList_append_of String.toList_ofList))
  obtain ⟨program, s, e, hprogram, hsurvey, hunit, -⟩ :=
    @exists_of_failsFor takenApart .contextAssignment (any_ofSource hcs (by decide +kernel))
  obtain ⟨program', hprogram', hentry⟩ : ∃ program, Program.ofSource takenApart = .ok program ∧
      ((entry program).toOption.any fun unit => unit.rootName == "$" &&
        walkableStmts ⟨"$", true⟩ true unit.body) = true :=
    eq_ok_of_any (any_ofSource hcs (by decide +kernel))
  obtain rfl : program' = program := Except.ok.inj (hprogram'.symm.trans hprogram)
  obtain ⟨⟨root, body⟩, hentry, hready⟩ := eq_ok_of_any hentry
  obtain ⟨hroot, hready⟩ := Bool.and_eq_true_iff.mp hready
  obtain rfl : root = "$" := by simpa using hroot
  obtain ⟨hwalkable, hfailures⟩ := slotUnit_failures hprogram hentry hsurvey
  obtain ⟨hhoist, htarget, hdeclaration⟩ := hfailures e hunit
  exact ⟨program', body, s, e, hprogram, hentry, hsurvey, hready, hwalkable hready, hunit, hhoist,
    htarget, hdeclaration hready⟩

/-- Defaults and values that names are taken off are not normalised. -/
theorem slotUnit_failures_left : (∃ program s e, Program.ofSource
      ("($) => \x7b function f(a = function () \x7b let [x] = y; return x; \x7d) " ++
        "\x7b return a; \x7d \x7d") = .ok program ∧ survey program = .ok s ∧
      slotUnit s.body s.scopes = .error e ∧ e.cause = .destructuringDeclaration) ∧
    ∃ program s e, Program.ofSource
      "($) => \x7b const \x7b a \x7d = $.data[(() => \x7b let [x] = y; return x; \x7d)()]; \x7d" =
        .ok program ∧ survey program = .ok s ∧
      slotUnit s.body s.scopes = .error e ∧ e.cause = .destructuringDeclaration :=
  ⟨exists_of_failsFor (any_ofSource (toList_append_of String.toList_ofList) (by decide +kernel)),
    exists_of_failsFor (any_ofSource String.toList_ofList (by decide +kernel))⟩

end IndicatorCompiler.SlotForm
