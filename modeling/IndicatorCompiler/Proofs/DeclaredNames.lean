import IndicatorCompiler.Proofs.Normalized
import IndicatorCompiler.Proofs.Sights
import IndicatorCompiler.Survey

/-!
# Constants of normal forms

Every constant of a normal form is a name that the unit declares, which generated names avoid, or a
temporary.
-/

namespace IndicatorCompiler.SlotForm

open Script Survey NormalForm
open List (mem_append append_nil map_append)

/-- The constants are among the names or are temporaries. -/
def Known (sights : List Sight) (names : List NameUse) : Prop :=
  ∀ x, .constant x ∈ sights → x ∈ names.map (·.name) ∨ ∃ n, x = tempName n

namespace Known

variable {a b : List Sight} {us vs : List NameUse}

theorem nil : Known [] us := fun _ h => by cases h

theorem append (h : Known a us) (h' : Known b vs) : Known (a ++ b) (us ++ vs) := by
  intro x hx
  rw [map_append, mem_append]
  rcases mem_append.mp hx with hx | hx
  · exact (h x hx).imp .inl id
  · exact (h' x hx).imp .inr id

theorem mono (h : Known a us) (hsub : us ⊆ vs) : Known a vs :=
  fun x hx => (h x hx).imp (fun hmem => List.map_subset _ hsub hmem) id

theorem both (h : Known a us) (h' : Known b us) : Known (a ++ b) us := (h.append h').mono (by simp)

theorem of_none (h : ∀ x, .constant x ∉ a) : Known a us := fun x hx => absurd hx (h x)

theorem slot (x : String) (h : Known a us) : Known (.slot x :: a) us :=
  fun y hy => h y (by simpa using hy)

theorem declared (kind : VarKind) (xs : List String) :
    Known (declaredSights kind xs) (xs.map .binding) := by
  intro x hx
  unfold declaredSights at hx
  split at hx
  · exact .inl (by simpa [NameUse.name] using hx)
  · cases hx

end Known

/-! ## Names of parts among those of the whole -/

/-- The names of one binding. -/
def namesInDeclarator (d : Declarator) : List NameUse :=
  d.id.boundNames.map .binding ++ namesInDefaults d.id ++ boundFunction d.id d.init ++
  namesInExpr? d.init

/-! ## Trees as they are read -/

attribute [local grind =] namesInInit namesInFunction namesInExpr namesInExprs namesInProperties
  namesInParams namesInStmt namesInDeclarators namesInDeclarator namesInExpr? namesInDefaults
  Pattern.boundNames namesInItemDefaults boundInItems namesInPropertyDefaults boundInProperties

mutual
theorem known_expr : (e : Expr) → Known (e.observe sourceSights ()) (namesInExpr e)
  | .ident _ | .lit (.str _) => .of_none (by simp [Expr.observe, sourceSights])
  | .lit (.num _) | .lit (.bool _) | .lit .null => .nil
  | .array items => known_exprs items
  | .object ps => known_properties ps
  | .function f => known_function f
  | .unary _ arg | .update _ _ arg => known_expr arg
  | .binary _ left right => (known_expr left).append (known_expr right)
  | .assign _ target value =>
    (known_parts target (Known.nil : Known [] [])).append (known_expr value)
  | .conditional test consequent alternate =>
    ((known_expr test).append (known_expr consequent)).append (known_expr alternate)
  | .call callee args | .new callee args => (known_expr callee).append (known_exprs args)
  | .member base x => .slot x (known_expr base :)
  | .index base i => (known_expr base).append (known_expr i)
  | .sequence items => known_exprs items
  | .spread arg => known_expr arg

theorem known_exprs : (es : List Expr) → Known (observeExprs sourceSights () es) (namesInExprs es)
  | [] => .nil
  | e :: rest => (known_expr e).append (known_exprs rest)

theorem known_expr? : (e : Option Expr) → Known (observeExpr? sourceSights () e) (namesInExpr? e)
  | none => .nil
  | some e => known_expr e

theorem known_properties : (ps : List Property) →
    Known (observeProperties sourceSights () ps) (namesInProperties ps)
  | [] => .nil
  | ⟨.name _, value, _⟩ :: rest
  | ⟨.str _, value, _⟩ :: rest =>
    (Known.both .nil (known_expr value)).append (known_properties rest)
  | ⟨.computed key, value, _⟩ :: rest =>
    ((known_expr key).append (known_expr value)).append (known_properties rest)

theorem known_parts : (e : Expr) → {ds : List Sight} → {us : List NameUse} → Known ds us →
    Known (observeParts sourceSights () ds e) (us ++ namesInExpr e)
  | .ident _, _, _, h => (Known.both (.of_none (by simp [sourceSights])) h).mono (by simp)
  | .member base _, _, _, _ =>
    (Known.both (.of_none (by simp [sourceSights])) (known_expr base)).mono fun _ => by grind
  | .index base i, _, _, _ => ((known_expr base).append (known_expr i)).mono fun _ => by grind
  | .array items, _, _, h => known_itemParts items h
  | .object ps, _, _, h => known_propertyParts ps h
  | .assign .assign target value, _, _, h =>
    (known_parts target (h.append (known_expr value))).mono fun _ => by grind
  | .spread arg, _, _, h => known_parts arg h
  | .assign .add _ _, _, _, _ | .assign .sub _ _, _, _, _ | .assign .mul _ _, _, _, _
  | .assign .div _ _, _, _, _ | .assign .mod _ _, _, _, _ | .lit _, _, _, _ | .function _, _, _, _
  | .unary _ _, _, _, _ | .update _ _ _, _, _, _ | .binary _ _ _, _, _, _
  | .conditional _ _ _, _, _, _ | .call _ _, _, _, _ | .new _ _, _, _, _
  | .sequence _, _, _, _ => .nil

theorem known_itemParts : (es : List Expr) → {ds : List Sight} → {us : List NameUse} → Known ds us →
    Known (observeItemParts sourceSights () ds es) (us ++ namesInExprs es)
  | [], _, _, _ => .nil
  | e :: rest, _, _, h =>
    ((known_parts e h).append (known_itemParts rest h)).mono fun _ => by grind

theorem known_propertyParts : (ps : List Property) → {ds : List Sight} → {us : List NameUse} →
    Known ds us → Known (observePropertyParts sourceSights () ds ps) (us ++ namesInProperties ps)
  | [], _, _, _ => .nil
  | ⟨.name _, value, _⟩ :: rest, _, _, h | ⟨.str _, value, _⟩ :: rest, _, _, h =>
    ((known_parts value (h.both (.of_none (by simp [sourceSights])))).append
      (known_propertyParts rest h)).mono fun _ => by grind
  | ⟨.computed _, value, _⟩ :: rest, _, _, h =>
    (known_propertyParts rest h).mono fun _ => by grind

theorem known_function : (f : Function) → Known (f.observe sourceSights ()) (namesInFunction f)
  | ⟨_, params, body, _⟩ => (known_params params).append (known_body body)

theorem known_body : (body : FunctionBody) → Known (body.observe sourceSights ()) (namesInBody body)
  | .block stmts => known_stmts stmts
  | .expr value => known_expr value

theorem known_params :
    (ps : List Pattern) → Known (observePatterns sourceSights () ps) (namesInParams ps)
  | [] => .nil
  | p :: rest => ((known_pattern p).append (known_params rest)).mono fun _ => by grind

theorem known_pattern : (p : Pattern) → Known (p.observe sourceSights ()) (namesInDefaults p)
  | .ident _ => .nil
  | .array items => known_patternItems items
  | .object ps => known_patternProperties ps
  | .withDefault target value => (known_pattern target).append (known_expr value)
  | .rest target => known_pattern target

theorem known_patternItems : (items : List (Option Pattern)) →
    Known (observePatternItems sourceSights () items) (namesInItemDefaults items)
  | [] => .nil
  | none :: rest => known_patternItems rest
  | some p :: rest => (known_pattern p).append (known_patternItems rest)

theorem known_patternProperties : (ps : List PatternProperty) →
    Known (observePatternProperties sourceSights () ps) (namesInPropertyDefaults ps)
  | [] => .nil
  | ⟨_, value⟩ :: rest => (known_pattern value).append (known_patternProperties rest)

theorem known_stmt : (stmt : Stmt) → Known (stmt.observe sourceSights ()) (namesInStmt stmt)
  | .var kind decls => known_declarators kind decls
  | .function ⟨_, params, body, _⟩ =>
    ((known_params params).append (known_body body)).mono fun _ => by grind
  | .ret value => known_expr? value
  | .ifElse test consequent none => ((known_expr test).append (known_stmt consequent)).append .nil
  | .ifElse test consequent (some alternate) =>
    ((known_expr test).append (known_stmt consequent)).append (known_stmt alternate)
  | .forLoop none test update body =>
    ((known_expr? test).append (known_expr? update)).append (known_stmt body)
  | .forLoop (some init) test update body =>
    ((known_init init).append
      (((known_expr? test).append (known_expr? update)).append (known_stmt body))).mono
      fun _ => by grind
  | .forEach each none pattern right body =>
    ((known_expr right).append ((Known.both (.of_none (by simp [sourceSights]))
      (known_pattern pattern)).append (known_stmt body))).mono fun _ => by grind
  | .forEach each (some kind) pattern right body =>
    ((known_expr right).append (((Known.declared kind pattern.boundNames).append
      (known_pattern pattern)).append (known_stmt body))).mono fun _ => by grind
  | .whileLoop test body => (known_expr test).append (known_stmt body)
  | .block body => known_stmts body
  | .expr value => known_expr value
  | .breakLoop | .continueLoop | .empty => .nil

theorem known_stmts :
    (stmts : List Stmt) → Known (observeStmts sourceSights () stmts) (namesInStmts stmts)
  | [] => .nil
  | stmt :: rest => (known_stmt stmt).append (known_stmts rest)

theorem known_declarators (kind : VarKind) : (ds : List Declarator) →
    Known (observeDeclarators sourceSights () kind ds) (namesInDeclarators ds)
  | [] => .nil
  | ⟨id, init⟩ :: rest =>
    ((((Known.declared kind id.boundNames).append (known_pattern id)).append
      (known_expr? init)).append (known_declarators kind rest)).mono fun _ => by grind

theorem known_init : (init : ForInit) → Known (init.observe sourceSights ()) (namesInInit init)
  | .declare kind decls => known_declarators kind decls
  | .expr value => known_expr value
end

/-! ## Normal forms -/

theorem observe_asBlock (stmts : List Stmt) :
    (asBlock stmts).observe sourceSights () = observeStmts sourceSights () stmts := by
  unfold asBlock
  split
  · exact (append_nil _).symm
  · rfl

theorem observe_asAlternate (stmts : List Stmt) :
    (asAlternate stmts).observe sourceSights () = observeStmts sourceSights () stmts := by
  unfold asAlternate
  split
  · exact (append_nil _).symm
  · exact observe_asBlock stmts

theorem Known.single {stmt us} (h : Known (stmt.observe sourceSights ()) us) :
    Known (observeStmts sourceSights () [stmt]) us := by
  rw [observeStmts, observeStmts, append_nil]
  exact h

theorem Known.binding (kind : VarKind) (id : Pattern) {e us}
    (h : Known (observeExpr? sourceSights () e) us) :
    Known ((NormalForm.declared kind id e).observe sourceSights ())
      (id.boundNames.map .binding ++ namesInDefaults id ++ us) :=
  ((((Known.declared kind id.boundNames).append (known_pattern id)).append h).append
    (Known.nil : Known [] [])).mono (by simp)

theorem Known.temp (n : Nat) {e us} (h : Known (e.observe sourceSights ()) us) :
    Known ((NormalForm.declared .constant (.ident (tempName n)) (some e)).observe sourceSights ())
      us := by
  have hname : Known (declaredSights .constant [tempName n]) us :=
    fun x hx => .inr ⟨n, by simpa [declaredSights] using hx⟩
  exact ((hname.both .nil).both h).both .nil

/-- The name of a function is no sight. -/
theorem observe_renamed (x : String) (f : Function) :
    (Stmt.function ⟨some x, f.params, f.body, false⟩).observe sourceSights () =
      f.observe sourceSights () := by
  obtain ⟨name, params, body, arrow⟩ := f
  rfl

theorem Known.forEach {each} (kind : Option VarKind) (pattern : Pattern) {right right' body body'}
    (hright : Known (right'.observe sourceSights ()) (namesInExpr right))
    (hbody : Known (body'.observe sourceSights ()) (namesInStmt body)) :
    Known ((Stmt.forEach each kind pattern right' body').observe sourceSights ())
      (namesInStmt (.forEach each kind pattern right body)) := by
  cases kind with
  | none =>
    have hbare (x : String) : .constant x ∉ pattern.boundNames.flatMap (sourceSights.name ()) := by
      simp [sourceSights]
    have hnames := Known.both (.of_none hbare) (known_pattern pattern)
    exact (hright.append (hnames.append hbody)).mono fun _ => by grind
  | some kind =>
    have hnames := (Known.declared kind pattern.boundNames).append (known_pattern pattern)
    exact (hright.append (hnames.append hbody)).mono fun _ => by grind

section

variable {root : String}

mutual
theorem known_normalExpr {e e'} :
    NormalExpr root e e' → Known (e'.observe sourceSights ()) (namesInExpr e)
  | .ident x => known_expr (.ident x)
  | .lit value => known_expr (.lit value)
  | .array h | .sequence h => known_normalExprs h
  | .object h => known_normalProperties h
  | .function h => known_normalFunction h
  | .unary _ h | .update _ _ h | .spread h => (known_normalExpr h :)
  | .binary _ hl hr => (known_normalExpr hl).append (known_normalExpr hr)
  | .assign _ ht hv => (known_normalParts ht (Known.nil : Known [] [])).append (known_normalExpr hv)
  | .conditional ht hc ha =>
    ((known_normalExpr ht).append (known_normalExpr hc)).append (known_normalExpr ha)
  | .call hf hs | .new hf hs => (known_normalExpr hf).append (known_normalExprs hs)
  | .member x h => .slot x (known_normalExpr h :)
  | .index hb hi => (known_normalExpr hb).append (known_normalExpr hi)
termination_by structural e

theorem known_normalExprs {es es'} : NormalExprs root es es' →
    Known (observeExprs sourceSights () es') (namesInExprs es)
  | .nil => .nil
  | .cons h hs => (known_normalExpr h).append (known_normalExprs hs)
termination_by structural es

theorem known_normalExpr? {e e'} : NormalExpr? root e e' →
    Known (observeExpr? sourceSights () e') (namesInExpr? e)
  | .none => .nil
  | .some h => known_normalExpr h
termination_by structural e

theorem known_normalProperties {ps ps'} : NormalProperties root ps ps' →
    Known (observeProperties sourceSights () ps') (namesInProperties ps)
  | .nil => .nil
  | .cons _ (.name _) h hs
  | .cons _ (.str _) h hs =>
    (Known.both .nil (known_normalExpr h)).append (known_normalProperties hs)
  | .cons _ (.computed hkey) h hs =>
    ((known_normalExpr hkey).append (known_normalExpr h)).append (known_normalProperties hs)
termination_by structural ps

theorem known_normalParts {e e'} : NormalExpr root e e' → {ds : List Sight} →
    {us : List NameUse} → Known ds us →
    Known (observeParts sourceSights () ds e') (us ++ namesInExpr e)
  | .ident x, _, _, h => known_parts (.ident x) h
  | .lit _, _, _, _ => .nil
  | .array hs, _, _, h => known_normalItemParts hs h
  | .object hs, _, _, h => known_normalPropertyParts hs h
  | .spread he, _, _, h => known_normalParts he h
  | .assign op ht hv, ds, us, h => by
    cases op with
    | assign =>
      exact (known_normalParts ht (h.append (known_normalExpr hv))).mono fun _ => by grind
    | _ => exact .nil
  | .member _ he, _, _, _ =>
    (Known.both (.of_none (by simp [sourceSights])) (known_normalExpr he)).mono fun _ => by grind
  | .index hb hi, _, _, _ =>
    ((known_normalExpr hb).append (known_normalExpr hi)).mono fun _ => by grind
  | .sequence _, _, _, _ | .function _, _, _, _ | .unary _ _, _, _, _ | .update _ _ _, _, _, _
  | .binary _ _ _, _, _, _ | .conditional _ _ _, _, _, _ | .call _ _, _, _, _
  | .new _ _, _, _, _ => .nil
termination_by structural e

theorem known_normalItemParts {es es'} : NormalExprs root es es' → {ds : List Sight} →
    {us : List NameUse} → Known ds us →
    Known (observeItemParts sourceSights () ds es') (us ++ namesInExprs es)
  | .nil, _, _, _ => .nil
  | .cons he hs, _, _, h =>
    ((known_normalParts he h).append (known_normalItemParts hs h)).mono fun _ => by grind
termination_by structural es

theorem known_normalPropertyParts {ps ps'} : NormalProperties root ps ps' →
    {ds : List Sight} → {us : List NameUse} → Known ds us →
    Known (observePropertyParts sourceSights () ds ps') (us ++ namesInProperties ps)
  | .nil, _, _, _ => .nil
  | .cons _ (.name _) hv hs, _, _, h | .cons _ (.str _) hv hs, _, _, h =>
    ((known_normalParts hv (h.both (.of_none (by simp [sourceSights])))).append
      (known_normalPropertyParts hs h)).mono fun _ => by grind
  | .cons _ (.computed _) _ hs, _, _, h =>
    (known_normalPropertyParts hs h).mono fun _ => by grind
termination_by structural ps

theorem known_normalFunction {f f'} : NormalFunction root f f' →
    Known (f'.observe sourceSights ()) (namesInFunction f)
  | .block _ params _ h => (known_params params).append (known_normalStmts h)
  | .expr _ params _ h => (known_params params).append (.single (known_normalExpr h :))
termination_by structural f

theorem known_normalStmt {stmt stmts} : NormalStmt root stmt stmts →
    Known (observeStmts sourceSights () stmts) (namesInStmt stmt)
  | .var h => known_normalDeclarators h
  | .function (f := ⟨_, _, _, _⟩) h =>
    .single ((known_normalFunction h).mono fun _ => by grind)
  | .ret h => .single (known_normalExpr? h)
  | .ifThen ht hc => by
    refine .single (((known_normalExpr ht).append ?_).append .nil)
    rw [observe_asBlock]
    exact known_normalStmt hc
  | .ifElse ht hc ha => by
    refine .single (((known_normalExpr ht).append ?_).append ?_)
    · rw [observe_asBlock]
      exact known_normalStmt hc
    · rw [observe_asAlternate]
      exact known_normalStmt ha
  | .forLoop hi ht hu hb => by
    have hbody := known_normalStmt hb
    rw [← observe_asBlock] at hbody
    exact .single (known_normalFor hi (known_normalExpr? ht) (known_normalExpr? hu) hbody)
  | .forEach _ kind pattern hr hb => by
    have hbody := known_normalStmt hb
    rw [← observe_asBlock] at hbody
    exact .single (.forEach kind pattern (known_normalExpr hr) hbody)
  | .whileLoop ht hb => by
    refine .single ((known_normalExpr ht).append ?_)
    rw [observe_asBlock]
    exact known_normalStmt hb
  | .block h => .single (known_normalStmts h)
  | .expr h => .single (known_normalExpr h)
  | .empty | .breakLoop | .continueLoop => .nil
termination_by structural stmt

theorem known_normalStmts {stmts stmts'} : NormalStmts root stmts stmts' →
    Known (observeStmts sourceSights () stmts') (namesInStmts stmts)
  | .nil => .nil
  | .cons h hs => by
    rw [observeStmts_append]
    exact (known_normalStmt h).append (known_normalStmts hs)
termination_by structural stmts

theorem known_normalDeclarators {kind ds stmts} : NormalDeclarators root kind ds stmts →
    Known (observeStmts sourceSights () stmts) (namesInDeclarators ds)
  | .nil _ => .nil
  | .cons (d := ⟨id, init⟩) h hs => by
    rw [observeStmts_append]
    exact ((known_normalDeclarator h).append (known_normalDeclarators hs)).mono fun _ => by grind
termination_by structural ds

theorem known_normalFor {init init'} : NormalInit? root init init' →
    {test test' update update' : Option Expr} → {body body' : Stmt} →
    Known (observeExpr? sourceSights () test') (namesInExpr? test) →
    Known (observeExpr? sourceSights () update') (namesInExpr? update) →
    Known (body'.observe sourceSights ()) (namesInStmt body) →
    Known ((Stmt.forLoop init' test' update' body').observe sourceSights ())
      (namesInStmt (.forLoop init test update body))
  | .none, _, _, _, _, _, _, ht, hu, hb => (ht.append hu).append hb
  | .declare kind hi, _, _, _, _, _, _, ht, hu, hb =>
    ((known_normalBindings kind hi).append ((ht.append hu).append hb)).mono fun _ => by grind
  | .expr hi, _, _, _, _, _, _, ht, hu, hb =>
    ((known_normalExpr hi).append ((ht.append hu).append hb)).mono fun _ => by grind
termination_by structural init

theorem known_normalBindings (kind : VarKind) {ds ds'} : NormalBindings root ds ds' →
    Known (observeDeclarators sourceSights () kind ds') (namesInDeclarators ds)
  | .nil => .nil
  | .cons id h hs =>
    ((((Known.declared kind id.boundNames).append (known_pattern id)).append
      (known_normalExpr? h)).append (known_normalBindings kind hs)).mono fun _ => by grind
termination_by structural ds

theorem known_normalDeclarator {kind d stmts} : NormalDeclarator root kind d stmts →
    Known (observeStmts sourceSights () stmts) (namesInDeclarator d)
  | .function x h => by
    refine .single ?_
    rw [observe_renamed]
    exact (known_normalFunction h).mono fun u hmem => List.mem_append_right _ hmem
  | .name x _ h =>
    .single ((Known.binding kind (.ident x) (known_normalExpr? h)).mono fun _ => by grind)
  | .takenOff pattern _ _ =>
    .single ((Known.binding kind pattern (known_expr? (some _))).mono fun _ => by grind)
  | .split n _ _ h hs => by
    have hsource : Known ((Expr.ident (tempName n)).observe sourceSights ()) [] :=
      .of_none (by simp [Expr.observe, sourceSights])
    have hstmts := known_expanded hs hsource
    have htemp := Known.temp n (known_normalExpr h)
    exact (htemp.append hstmts).mono fun _ => by grind
termination_by structural d

/-- The names that are declared from a source whose names are known. -/
theorem known_expanded {kind source pattern stmts} :
    Expanded root kind source pattern stmts → {us : List NameUse} →
    Known (source.observe sourceSights ()) us →
    Known (observeStmts sourceSights () stmts)
      (us ++ pattern.boundNames.map .binding ++ namesInDefaults pattern)
  | .ident x, _, h =>
    .single ((Known.binding kind (.ident x) h (e := some _)).mono fun _ => by grind)
  | .withDefault hv hs, _, h =>
    (known_expanded hs (h.append (known_normalExpr hv))).mono fun _ => by grind
  | .array hs, _, h => known_expandedItems hs h
  | .object hs, _, h => known_expandedProperties hs h
termination_by structural pattern

theorem known_expandedItems {kind source i items stmts} :
    ExpandedItems root kind source i items stmts → {us : List NameUse} →
    Known (source.observe sourceSights ()) us →
    Known (observeStmts sourceSights () stmts)
      (us ++ (boundInItems items).map .binding ++ namesInItemDefaults items)
  | .nil _ _ _, _, _ => .nil
  | .hole hs, _, h => known_expandedItems hs h
  | .rest ht hs, us, h => by
    have hslice : Known ((elementsFrom source i).observe sourceSights ()) us := by
      have hwhole := (Known.slot "slice" h).both .nil
      exact hwhole
    rw [observeStmts_append]
    exact ((known_expanded ht hslice).append (known_expandedItems hs h)).mono fun _ => by grind
  | .item ht hs, us, h => by
    have helement : Known ((elementOf source i).observe sourceSights ()) us := h.both .nil
    rw [observeStmts_append]
    exact ((known_expanded ht helement).append (known_expandedItems hs h)).mono fun _ => by grind
termination_by structural items

theorem known_expandedProperties {kind source ps stmts} :
    ExpandedProperties root kind source ps stmts → {us : List NameUse} →
    Known (source.observe sourceSights ()) us →
    Known (observeStmts sourceSights () stmts)
      (us ++ (boundInProperties ps).map .binding ++ namesInPropertyDefaults ps)
  | .nil _ _, _, _ => .nil
  | .cons key ht hs, us, h => by
    rw [observeStmts_append]
    exact ((known_expanded ht (Known.slot key h :)).append
      (known_expandedProperties hs h)).mono fun _ => by grind
termination_by structural ps
end

end

end IndicatorCompiler.SlotForm
