import IndicatorCompiler.Proofs.SlotSimulation

/-!
# The slot form keeps the meaning of a body

One lemma for each kind of statement says that the walk over it succeeds and leaves statements that
do the same; by induction this holds of whole bodies.
-/

namespace IndicatorCompiler.Script

open SlotForm
open Bool (and_eq_true_iff and_eq_true)

variable {V S : Type} {L : Layout} {names : List (String × VarKind)} {kind : VarKind}

/-! ## Runs of statement lists -/

section

variable (M : ValueModel V) (R : Runtime V S) (fuel : Nat)

theorem Outcome.andThen_assoc (o : Outcome V S) (f g : Machine V S → Outcome V S) :
    (o.andThen f).andThen g = o.andThen fun m => (f m).andThen g := by
  cases o with
  | none => rfl
  | some p =>
    obtain ⟨m, seen⟩ := p
    simp only [Outcome.andThen, Option.bind_some]
    cases f m with
    | none => rfl
    | some q => simp [Option.map_map, Function.comp_def]

@[simp] theorem Outcome.andThen_done (o : Outcome V S) : o.andThen (fun m => some (m, [])) = o := by
  cases o <;> simp [Outcome.andThen]

@[simp] theorem Outcome.done_andThen (m : Machine V S) (f : Machine V S → Outcome V S) :
    Outcome.andThen (some (m, [])) f = f m := by
  simp [Outcome.andThen]

@[simp] theorem inFrame_nil (run : Machine V S → Outcome V S) : inFrame [] run = run := by
  funext m
  simp [inFrame, Env.opened]

@[simp] theorem runStmts_singleton (stmt : Stmt) (m : Machine V S) :
    runStmts M R fuel [stmt] m = runStmt M R fuel stmt m :=
  Outcome.andThen_done _

theorem runStmts_append (first rest : List Stmt) (m : Machine V S) :
    runStmts M R fuel (first ++ rest) m =
      (runStmts M R fuel first m).andThen (runStmts M R fuel rest) := by
  induction first generalizing m with
  | nil => exact (Outcome.done_andThen m _).symm
  | cons stmt first ih =>
    calc
      _ = (runStmt M R fuel stmt m).andThen (runStmts M R fuel (first ++ rest)) := rfl
      _ = (runStmt M R fuel stmt m).andThen fun m =>
          (runStmts M R fuel first m).andThen (runStmts M R fuel rest) := by rw [funext ih]
      _ = _ := (Outcome.andThen_assoc _ _ _).symm

theorem runStmt_ifElse (test : Expr) (consequent : Stmt) (alternate : Option Stmt)
    (m : Machine V S) :
    runStmt M R fuel (.ifElse test consequent alternate) m =
      (holds? M R m (some test)).bind fun b =>
        Outcome.andThen (some (m, [.test b])) fun m =>
          if b then inFrame (declaredBy consequent) (runStmt M R fuel consequent) m
          else runElse M R fuel alternate m :=
  rfl

theorem runElse_some (stmt : Stmt) :
    runElse M R fuel (some stmt) = inFrame (declaredBy stmt) (runStmt M R fuel stmt) :=
  rfl

theorem runStmt_whileLoop (test : Expr) (body : Stmt) (m : Machine V S) :
    runStmt M R fuel (.whileLoop test body) m =
      runWhile (holds? M R · (some test)) (inFrame (declaredBy body) (runStmt M R fuel body))
        fuel m :=
  rfl

theorem runStmt_forLoop (kind : VarKind) (decls : List Declarator) (test update : Option Expr)
    (body : Stmt) (m : Machine V S) :
    runStmt M R fuel (.forLoop (some (.declare kind decls)) test update body) m =
      inFrame (declaredBy (.var kind decls)) (fun m => (runDeclarators M R decls m).andThen fun m =>
          runWhile (holds? M R · test)
          (fun m => (inFrame (declaredBy body) (runStmt M R fuel body) m).andThen
              (perform? M R update)) fuel m) m :=
  rfl

theorem runStmt_block {body} (hflat : declaredIn body = []) :
    runStmt M R fuel (.block body) = runStmts M R fuel body := by
  funext m
  change inFrame (declaredIn body) (runStmts M R fuel body) m = _
  rw [hflat, inFrame_nil]

end

/-! ## What a walk over a statement leaves -/

/-- The walk succeeds from `w`, and the statements that it leaves do what `run` does between points
that are laid out by `L` and by `L'`. -/
structure Leaves (M : ValueModel V) (R : Runtime V S) (w : Walk) (L L' : Layout)
    (walk : Visit) (run : Nat → Machine V S → Outcome V S) (stmts : List Stmt) (w' : Walk) :
    Prop where
  walks : ∀ ancestors, Succeeds (walk ancestors) w stmts w'
  hoisted : w'.hoisted = w.hoisted
  scope : SameScope w.scopes w'.scopes
  located : Located w'.scopes L'
  /-- The statements open no names of their own. -/
  flat : declaredIn stmts = []
  same : ∀ fuel m m', Related M R L m m' → (run fuel m).Matches M R L' (runStmts M R fuel stmts m')

/-- What a walk starts from; `hidden` says that a counter may hide the undefined value. -/
structure Ready (root : String) (hidden : Bool) (w : Walk) (L : Layout) : Prop where
  located : Located w.scopes L
  root : w.scopes.rootName = root
  unhidden : hidden = false → ("undefined", Place.counter) ∉ L.roles

/-- The names have their places in the scope and are not open. -/
def Placed (scope : Scope) (L : Layout) (names : List (String × VarKind)) : Prop :=
  ∀ x ∈ names, L.lookup x.1 = some ⟨.slot x.2 (scope.slotName x.1), false⟩

theorem Placed.openingAll {scope} (h : Placed scope L names) (xs : List (String × VarKind))
    (hdisjoint : ∀ x ∈ xs, ∀ y ∈ names, y.1 ≠ x.1) : Placed scope (L.openingAll xs) names := by
  induction xs generalizing L with
  | nil => exact h
  | cons x xs ih =>
    refine ih (L := L.opening x.1) (fun y hy => ?_) fun z hz => hdisjoint z (by simp [hz])
    rw [InScope.lookup_opening_ne (hdisjoint x (by simp) y hy)]
    exact h y hy

theorem Placed.sameScope {s t} (hst : SameScope s t) (h : Placed s.inner L names) :
    Placed t.inner L names := by
  intro x hx
  rw [hst.slotName]
  exact h x hx

theorem placed_block (scope : Scope) (hnodup : (names.map (·.1)).Nodup) (L : Layout) :
    Placed scope (Layout.block scope names ++ L) names :=
  fun _ hx => Layout.lookup_block hnodup hx L

namespace Ready

variable {root : String} {hidden : Bool} {w w' : Walk}

theorem openingAll (h : Ready root hidden w L) (names : List (String × VarKind))
    (hscope : SameScope w.scopes w'.scopes) (hloc : Located w'.scopes (L.openingAll names)) :
    Ready root hidden w' (L.openingAll names) :=
  ⟨hloc, hscope.rootName.trans h.root, fun hh => by simpa using h.unhidden hh⟩

theorem withHoisted (h : Ready root hidden w L) (hoisted : List (List Stmt)) :
    Ready root hidden { w with hoisted := hoisted } L :=
  ⟨h.located, h.root, h.unhidden⟩

theorem push (h : Ready root hidden w L) (kind : ScopeKind) :
    Ready root hidden { w with scopes := w.scopes.push kind } L :=
  ⟨h.located.push kind, h.root, h.unhidden⟩

theorem enterBlock (h : Ready root hidden w L) (hfresh : FreshScope w.scopes L)
    (hnames : properNames root names) :
    Ready root hidden w (Layout.block w.scopes.inner names ++ L) where
  located := h.located.enterBlock hfresh (h.root.symm ▸ hnames)
  root := h.root
  unhidden hh := by simpa using h.unhidden hh

theorem enterLoop (h : Ready root hidden w L) (hnames : properNames root names) :
    Ready root (hidden || namesUndefined names) w (Layout.counters names ++ L) where
  located := h.located.enterLoop (h.root.symm ▸ hnames)
  root := h.root
  unhidden hh := by
    simp only [Bool.or_eq_false_iff, namesUndefined, List.any_eq_false, decide_eq_true_eq] at hh
    rw [InScope.roles_append, Layout.roles_counters, List.mem_append]
    rintro (hmem | hmem)
    · obtain ⟨x, hx, heq⟩ := List.mem_map.mp hmem
      exact hh.2 x hx (congrArg Prod.fst heq)
    · exact h.unhidden hh.1 hmem

end Ready

theorem mapRole_block (scope : Scope) (names : List (String × VarKind)) (L : Layout) :
    InScope.mapRole Place.role (Layout.block scope names ++ L) =
    (L.mapRole Place.role).enter names := by
  simp [InScope.mapRole, InScope.enter, Layout.block, Place.role, Function.comp_def]

theorem mapRole_counters (names : List (String × VarKind)) (L : Layout) :
    InScope.mapRole Place.role (Layout.counters names ++ L) =
    (L.mapRole Place.role).enterLoop names := by
  simp [InScope.mapRole, InScope.enterLoop, Layout.counters, Place.role, Function.comp_def]

/-! ## Assignments -/

section

variable {M : ValueModel V} {R : Runtime V S} {w : Walk} {m m' : Machine V S}

/-- Assigning to a counter does the same on both sides. -/
theorem assignVariable_counter {x} (hx : L.lookup x = some ⟨.counter, true⟩)
    (hm : Related M R L m m') {f f' : V → Option V} (hf : f' = f) :
    (assignVariable x m f).Matches M R L (assignVariable x m' f') := by
  subst hf
  obtain ⟨v, hv, (hv' : m'.env.lookup x = _)⟩ := Aligned.lookup_open hm hx
  simp only [assignVariable, hv, hv', reduceCtorEq, if_false]
  refine Outcome.matches_map rfl fun a _ => ?_
  have halign := Aligned.write_counter hm hx a
  rwa [InScope.opening_of_opened hx] at halign

/-- Writing to a variable sets its slot, if the slot form computes the same value. -/
theorem writeSlot_slot (hR : R.Contract M) (h : Located w.scopes L) {x renamed opened}
    (hx : L.lookup x = some ⟨.slot kind renamed, opened⟩) (hm : Related M R L m m') {v method value}
    (hmethod : method = "init" ∨ method = "set") (hvalue : eval M R m' value = v) :
    Outcome.Matches M R (L.opening x)
    (v.map fun a => ({ m with env := m.env.write x a }, [.write a]))
      (writeSlot M R (.member (.ident contextName) method) (slotRef kind renamed) value m') := by
  have hctx := hm.context_free h
  rcases hmethod with rfl | rfl <;>
    simp only [writeSlot, hctx, Option.isSome_none, Bool.false_eq_true, if_false, runtimeWrite?,
      if_true, Option.bind_some, slotOf?_slotRef] <;>
    refine Outcome.matches_map hvalue fun a _ => ?_
  · exact Aligned.write_slot hm h.nodup hx (hR.get_init kind renamed a _)
      (hR.get_init_ne kind renamed a _)
  · exact Aligned.write_slot hm h.nodup hx (hR.get_set kind renamed a _)
      (hR.get_set_ne kind renamed a _)

/-- The slot form of an assigned value. -/
def assignedExpr (op : AssignOp) (slot value : Expr) : Expr :=
  match op.arithmetic? with
  | some arithmetic => .binary arithmetic (readNow slot) value
  | none => value

theorem eval_assignedExpr (h : Located w.scopes L) {renamed old} (hm : Related M R L m m')
    (hget : R.get kind renamed M.now m'.store = some old) (op : AssignOp) (value : Expr) :
    eval M R m' (assignedExpr op (slotRef kind renamed) value) =
      (eval M R m' value).bind fun v => M.assigned op old v := by
  have hread := eval_readNow (M := M) (R := R) (hm.context_free h) kind renamed
  cases op <;>
    simp [assignedExpr, ValueModel.assigned, AssignOp.arithmetic?, eval, hread, hget]

/-- The walk over an assignment changes nothing, and its result does the same. -/
theorem walks_perform (hR : R.Contract M) (h : Located w.scopes L) (e : Expr)
    (he : assigns (L.mapRole Place.role) e = true) :
    ∃ e', (∀ ancestors, Succeeds ((operand e).value ancestors) w e' w) ∧
      ∀ m m', Related M R L m m' → (perform M R e m).Matches M R L (perform M R e' m') := by
  fun_cases assigns (L.mapRole Place.role) e with
  | case1 op x value =>
    simp only [assigns, and_eq_true] at he
    obtain ⟨p, o, hx, ho⟩ := lookup_of_any he.1
    simp only [and_eq_true] at ho
    obtain ⟨rfl, hchanges⟩ := ho
    obtain ⟨value', hwalk, heval⟩ := walks_value hR h value he.2
    cases p with
    | counter =>
      refine ⟨.assign op (.ident x) value', fun ancestors => ?_, fun m m' hm => ?_⟩
      · simp only [operand, written, Operand.value, Operand.assign, assignName]
        rw [walks_resolve_bind_iff, h.resolve hx]
        simp only [Place.binding, Binding.resolution, succeeds_bind_iff, succeeds_pure_iff]
        exact ⟨value', w, hwalk _, rfl, rfl⟩
      · simp only [perform]
        exact assignVariable_counter hx hm (by simp only [heval m m' hm])
    | slot kind renamed =>
      refine ⟨contextCall "set" [slotRef kind renamed,
        assignedExpr op (slotRef kind renamed) value'], fun ancestors => ?_, fun m m' hm => ?_⟩
      · simp only [operand, written, Operand.value, Operand.assign, assignName]
        rw [walks_resolve_bind_iff, h.resolve hx]
        simp only [Place.binding, Binding.resolution, succeeds_bind_iff, succeeds_pure_iff]
        exact ⟨value', w, hwalk _, rfl, rfl⟩
      · obtain ⟨old, hold, hget⟩ := Aligned.lookup_open hm hx
        have hkind : kind ≠ .constant := by simpa [Place.role, Role.changes] using hchanges
        have hnew : eval M R m' (assignedExpr op (slotRef kind renamed) value') =
            (eval M R m value).bind fun v => M.assigned op old v := by
          rw [eval_assignedExpr h hm hget, heval m m' hm]
        have hwrite := writeSlot_slot hR h hx hm (.inr rfl) hnew
        rw [InScope.opening_of_opened hx] at hwrite
        simpa only [perform, contextCall, assignVariable, hold, Place.kind,
          if_neg hkind] using hwrite
  | case2 op isPrefix x =>
    have hx : L.lookup x = some ⟨.counter, true⟩ := by
      simp only [assigns, InScope.countable, InScope.lookup_mapRole, decide_eq_true_eq,
        Option.map_eq_some_iff, Standing.mk.injEq] at he
      obtain ⟨⟨p, o⟩, hx, hrole, ho⟩ := he
      cases p with
      | counter => simpa [← ho] using hx
      | slot => simp [Place.role] at hrole
    refine ⟨.update op isPrefix (.ident x), fun ancestors => ?_, fun m m' hm => ?_⟩
    · simp [operand, Operand.value, Operand.update, Operand.ident, h.resolve hx, Place.binding,
        Binding.resolution, Operand.nameAt]
    · exact assignVariable_counter hx hm rfl
  | case3 => simp_all [assigns]

theorem walks_perform? (hR : R.Contract M) (h : Located w.scopes L) (e : Option Expr)
    (he : assigns? (L.mapRole Place.role) e = true) :
    ∃ e', (∀ ancestors, Succeeds (value? (operand? e) ancestors) w e' w) ∧
      ∀ m m', Related M R L m m' → (perform? M R e m).Matches M R L (perform? M R e' m') := by
  cases e with
  | none => exact ⟨none, fun _ => by simp [operand?, value?], fun m m' hm => ⟨rfl, hm⟩⟩
  | some e =>
    obtain ⟨e', hwalk, hsame⟩ := walks_perform hR h e he
    exact ⟨some e', fun ancestors => by simpa [operand?, value?] using hwalk ancestors, hsame⟩

end

/-! ## Declarations -/

section

variable {M : ValueModel V} {R : Runtime V S} {w : Walk} {root : String} {hidden : Bool}
    {init : Option Expr}

/-- A pure expression takes nothing off the context. -/
theorem isTakenOff_eq_false (h : Located w.scopes L) (id : Pattern)
    (hinit : pureOver? (L.mapRole Place.role) init = true) :
    isTakenOff w.scopes ⟨id, operand? init⟩ = false := by
  cases init with
  | none => rfl
  | some e =>
    simp only [isTakenOff, operand?, Option.any_some]
    cases e
    case ident x =>
      obtain ⟨p, o, hx, -⟩ := lookup_of_any hinit
      have hproper := h.proper _ (Layout.mem_roles_of_lookup hx)
      simp [operand, Operand.ident, isContextRooted, Expr.rootIdent?, hproper.1, hproper.2]
    all_goals first | rfl | simp [pureOver?, pureOver] at hinit

theorem runStmt_initSlot (fuel : Nat) (method : String) (kind : VarKind) (renamed : String)
    (value : Expr) (m : Machine V S) :
    runStmt M R fuel (initSlot method (slotRef kind renamed) value) m =
      writeSlot M R (.member (.ident contextName) method) (slotRef kind renamed) value m := by
  have hslot := slotOf?_slotRef kind renamed
  change (if (slotOf? (slotRef kind renamed)).isSome ∧ _ then _ else none) = _
  rw [hslot]
  exact if_pos ⟨rfl, rfl⟩

/-- The slot form of a declaration gives the same value, where the undefined value is not hidden. -/
theorem eval_initialValue (h : Ready root hidden w L) {init'}
    (hinit : Option.Rel (fun e e' => ∀ m m', Related M R L m m' →
      eval M R m' e' = eval M R m e) init init')
    (hgives : hidden = true → init.isSome = true) {m m'} (hm : Related M R L m m') :
    eval M R m' (init'.getD .undefined) = initialValue M R m init := by
  cases hinit with
  | some heval => exact heval m m' hm
  | none =>
    have hfree : ("undefined", Place.counter) ∉ L.roles := by
      apply h.unhidden
      cases hidden
      · rfl
      · simp at hgives
    simp [initialValue, Expr.undefined, eval, Env.read, Aligned.lookup_eq_none hm hfree]

/-- The walk over the declaration of one name initialises its slot. -/
theorem walks_declare (hR : R.Contract M) (h : Ready root hidden w L) (hkind : kind ≠ .var) {x}
    (hx : L.lookup x = some ⟨.slot kind (w.scopes.inner.slotName x), false⟩)
    (hinit : pureOver? (L.mapRole Place.role) init = true)
    (hgives : hidden = true → init.isSome = true) :
    ∃ stmt w', (∀ ancestors,
      Succeeds (declare kind ⟨.ident x, operand? init⟩ ancestors) w stmt w') ∧
      w'.hoisted = w.hoisted ∧ SameScope w.scopes w'.scopes ∧ Located w'.scopes (L.opening x) ∧
      declaredBy stmt = [] ∧
      ∀ fuel m m', Related M R L m m' →
      (runDeclarator M R ⟨.ident x, init⟩ m).Matches M R (L.opening x)
          (runStmt M R fuel stmt m') := by
  obtain ⟨init', hwalk, heval⟩ := walks_value? hR h.located init hinit
  obtain ⟨hname, hscope, hloc⟩ := h.located.addVariable hx
  have hmethod : initMethod kind = "init" := by
    cases kind
    · exact absurd rfl hkind
    all_goals rfl
  refine ⟨initSlot "init" (slotRef kind (w.scopes.inner.slotName x)) (init'.getD .undefined),
    { w with scopes := (w.scopes.addVariable x kind).2 }, fun ancestors => ?_, rfl, hscope, hloc,
    rfl, fun fuel m m' hm => ?_⟩
  · simp only [declare, walks_fromScopes_bind_iff, isTakenOff_eq_false h.located _ hinit,
      Bool.false_eq_true, if_false, declareName]
    rw [(hwalk ancestors).bind_iff, walks_resolve_bind_iff,
      if_neg (h.located.plain.resolve_ne x).2, walks_nameFromScopes_bind_iff, hname,
      if_neg (w.scopes.inner.slotName_ne x), succeeds_pure_iff, hmethod]
    exact ⟨rfl, rfl⟩
  · have hwrite :=
      writeSlot_slot hR h.located hx hm (.inl rfl) (eval_initialValue h heval hgives hm)
    simpa only [runDeclarator, runStmt_initSlot] using hwrite

@[simp] theorem declaredBy_var_cons (kind : VarKind) (x : String) (init : Option Expr)
    (rest : List Declarator) :
    declaredBy (.var kind (⟨.ident x, init⟩ :: rest)) = (x, kind) :: declaredBy (.var kind rest) :=
  rfl

theorem declares_cons {Γ d rest} (h : declares Γ (d :: rest) = true) :
    ∃ x init, d = ⟨.ident x, init⟩ ∧ pureOver? Γ init = true ∧ declares (Γ.opening x) rest =
      true := by
  obtain ⟨id, init⟩ := d
  cases id with
  | ident x =>
    simp only [declares, and_eq_true] at h
    exact ⟨x, init, rfl, h⟩
  | _ => simp [declares] at h

/-- The walk over declarations of a block initialises their slots, in order. -/
theorem leaves_declarators (hR : R.Contract M) (hkind : kind ≠ .var) (decls : List Declarator) :
    ∀ {w : Walk} {L : Layout}, Ready root hidden w L →
      Placed w.scopes.inner L (declaredBy (.var kind decls)) →
      ((declaredBy (.var kind decls)).map (·.1)).Nodup →
      declares (L.mapRole Place.role) decls = true → (hidden = true → givesValues decls = true) →
      ∃ stmts w', Leaves M R w L (L.openingAll (declaredBy (.var kind decls)))
        (fun ancestors => (declaratorOperands decls).mapM (declare kind · ancestors))
        (fun _ => runDeclarators M R decls) stmts w' := by
  induction decls with
  | nil =>
    intro w L h _ _ _ _
    refine ⟨[], w, fun _ => by simp [declaratorOperands], rfl, .refl _, h.located, rfl, ?_⟩
    intro fuel m m' hm
    exact ⟨rfl, hm⟩
  | cons d rest ih =>
    intro w L h hplaced hnodup hdeclares hgives
    obtain ⟨x, init, rfl, hinit, hrest⟩ := declares_cons hdeclares
    rw [declaredBy_var_cons] at hplaced hnodup ⊢
    rw [List.map_cons, List.nodup_cons] at hnodup
    have hgives' (hh : hidden = true) := List.all_eq_true.mp (hgives hh)
    obtain ⟨stmt, w₁, hwalk, hhoisted, hscope, hloc, hflat, hsame⟩ :=
      walks_declare hR h hkind (hplaced (x, kind) (by simp)) hinit fun hh =>
      hgives' hh _ List.mem_cons_self
    -- the names behind the first one still have their places
    have hready : Ready root hidden w₁ (L.opening x) := h.openingAll [(x, kind)] hscope hloc
    have hplaced₁ : Placed w₁.scopes.inner (L.opening x) (declaredBy (.var kind rest)) := by
      refine Placed.sameScope hscope (Placed.openingAll ?_ [(x, kind)] ?_)
      · exact fun y hy => hplaced y (by simp [hy])
      · intro z hz y hy heq
        rw [List.mem_singleton.mp hz] at heq
        exact hnodup.1 (heq ▸ List.mem_map_of_mem (f := (·.1)) hy)
    obtain ⟨stmts, w₂, hleaves⟩ :=
      ih hready hplaced₁ hnodup.2 (by rw [InScope.mapRole_opening]; exact hrest)
      fun hh => List.all_eq_true.mpr fun d hd => hgives' hh d (by simp [hd])
    refine ⟨stmt :: stmts, w₂, ⟨fun ancestors => ?_, hleaves.hoisted.trans hhoisted,
      hscope.trans hleaves.scope, hleaves.located, ?_, fun fuel m m' hm => ?_⟩⟩
    · simp only [declaratorOperands, List.mapM_cons, succeeds_bind_iff, succeeds_pure_iff]
      exact ⟨stmt, w₁, hwalk _, stmts, w₂, hleaves.walks _, rfl, rfl⟩
    · simpa [declaredIn, hflat] using hleaves.flat
    · exact (hsame fuel m m' hm).andThen fun n n' hn => hleaves.same fuel n n' hn

/-- The walk over the counters of a loop keeps their names. -/
theorem walks_counters (hR : R.Contract M) (decls : List Declarator) :
    ∀ {w : Walk} {L : Layout}, Ready root hidden w L →
      (∀ x ∈ declaredBy (.var .lexical decls), ∃ o, L.lookup x.1 = some ⟨.counter, o⟩) →
      declares (L.mapRole Place.role) decls = true →
      ∃ decls' w', (∀ ancestors,
          Succeeds ((declaratorOperands decls).mapM (loopDeclarator · ancestors)) w decls' w') ∧
        w'.hoisted = w.hoisted ∧ SameScope w.scopes w'.scopes ∧
        Ready root hidden w' (L.openingAll (declaredBy (.var .lexical decls))) ∧
        declaredBy (.var .lexical decls') = declaredBy (.var .lexical decls) ∧
        ∀ m m', Related M R L m m' →
          (runDeclarators M R decls m).Matches M R (L.openingAll (declaredBy (.var .lexical decls)))
            (runDeclarators M R decls' m') := by
  induction decls with
  | nil =>
    intro w L h _ _
    refine ⟨[], w, fun _ => by simp [declaratorOperands], rfl, .refl _, h, rfl, ?_⟩
    intro m m' hm
    exact ⟨rfl, hm⟩
  | cons d rest ih =>
    intro w L h hcounters hdeclares
    obtain ⟨x, init, rfl, hinit, hrest⟩ := declares_cons hdeclares
    rw [declaredBy_var_cons] at hcounters ⊢
    obtain ⟨o, hx⟩ := hcounters (x, .lexical) (by simp)
    obtain ⟨init', hwalk, heval⟩ := walks_value? hR h.located init hinit
    let w₁ : Walk := { w with scopes := w.scopes.addLoopVariable x }
    have hready : Ready root hidden w₁ (L.opening x) :=
      h.openingAll [(x, .lexical)] (.addLoopVariable _ x) (h.located.addLoopVariable hx)
    have hcounters₁ : ∀ y ∈ declaredBy (.var .lexical rest),
        ∃ o, (L.opening x).lookup y.1 = some ⟨.counter, o⟩ := by
      intro y hy
      obtain ⟨oy, hlookup⟩ := hcounters y (by simp [hy])
      by_cases hyx : y.1 = x
      · exact ⟨true, hyx ▸ InScope.lookup_opening_self hx⟩
      · exact ⟨oy, (InScope.lookup_opening_ne hyx L).trans hlookup⟩
    obtain ⟨decls', w₂, hwalks, hhoisted, hscope, hready₂, hnames, hsame⟩ :=
      ih hready hcounters₁ (by rw [InScope.mapRole_opening]; exact hrest)
    refine ⟨⟨.ident x, init'⟩ :: decls', w₂, fun ancestors => ?_, hhoisted,
      (SameScope.addLoopVariable _ x).trans hscope, hready₂, by simp [hnames], fun m m' hm => ?_⟩
    · have hfirst : Succeeds (loopDeclarator ⟨.ident x, operand? init⟩ ancestors) w
        ⟨.ident x, init'⟩
          w₁ := by
        rw [loopDeclarator, (hwalk ancestors).bind_iff]
        simp [bindLoop, Pattern.boundNames, w₁]
      simp only [declaratorOperands, List.mapM_cons, succeeds_bind_iff, succeeds_pure_iff]
      exact ⟨_, w₁, hfirst, decls', w₂, hwalks _, rfl, rfl⟩
    · refine Outcome.Matches.andThen (L := L.opening x) ?_ hsame
      have hvalue : initialValue M R m' init' = initialValue M R m init := by
        cases heval with
        | none => rfl
        | some heval => exact heval m m' hm
      exact Outcome.matches_map hvalue fun a _ => Aligned.write_counter hm hx a

end

/-! ## Bodies and blocks -/

/-- The walk over the statements of a body succeeds in a scope that is entered for it, and what it
leaves does what `run` does.  The names of the body are gone afterwards. -/
structure LeavesBody (M : ValueModel V) (R : Runtime V S) (w : Walk) (L : Layout)
    (walk : Visit) (run : Nat → Machine V S → Outcome V S) (stmts : List Stmt) (w' : Walk) :
    Prop where
  walks : ∀ ancestors, Succeeds (walk ancestors) w stmts w'
  hoisted : w'.hoisted = w.hoisted
  scope : SameScope w.scopes w'.scopes
  located : ∃ K, Located w'.scopes K
  flat : declaredIn stmts = []
  same : ∀ fuel m m', Related M R L m m' → (run fuel m).Matches M R L (runStmts M R fuel stmts m')

section

variable {M : ValueModel V} {R : Runtime V S} {w w' : Walk} {stmts : List Stmt}

/-- What is opened on top of the layout for the names is left again, in ways that fit it. -/
theorem Outcome.Matches.leave {F : Layout} (hF : F.roles.map (·.1) = names.map (·.1))
    (leave : Machine V S → Machine V S) {o o' : Outcome V S}
    (hleave : ∀ {K : Layout} {n n' : Machine V S}, K.roles = F.roles → K.length = names.length →
      Related M R (K ++ L) n n' → Related M R L { n with env := n.env.drop names.length }
      (leave n'))
    (h : o.Matches M R (InScope.openingAll names (F ++ L)) o') :
    Outcome.Matches M R L (o.map fun (n, seen) => ({ n with env := n.env.drop names.length }, seen))
      (o'.map fun (n, seen) => (leave n, seen)) := by
  rw [InScope.openingAll_append_left fun x hx => hF ▸ List.mem_map_of_mem hx] at h
  match o, o', h with
  | none, none, _ => trivial
  | some (n, _), some (n', _), ⟨hseen, hrelated⟩ =>
    refine ⟨hseen, hleave (InScope.roles_openingAll names F) ?_ hrelated⟩
    rw [← InScope.roles_openingAll names F] at hF
    simpa only [InScope.roles, List.length_map] using congrArg List.length hF

/-- What runs with the names of a block opened matches what runs without them. -/
theorem inFrame_matches {scope : Scope} {run run' : Machine V S → Outcome V S}
    (hrun : ∀ m m', Related M R (Layout.block scope names ++ L) m m' →
      (run m).Matches M R (InScope.openingAll names (Layout.block scope names ++ L)) (run' m'))
    {m m' : Machine V S} (hm : Related M R L m m') :
    (inFrame names run m).Matches M R L (run' m') := by
  rw [← Option.map_id_apply (x := run' m')]
  refine (hrun { m with env := Env.opened names ++ m.env } m'
    (Aligned.enterBlock hm scope names)).leave
    (by simp [Layout.roles_block]) id fun hroles hlength hn => ?_
  rw [← hlength]
  refine Aligned.leaveBlock (fun e he => ?_) hn
  rw [hroles, Layout.roles_block] at he
  obtain ⟨x, -, rfl⟩ := List.mem_map.mp he
  simp

/-- What runs with the counters of a loop opened on both sides. -/
theorem inFrame_matches_loop (hlexical : ∀ x ∈ names, x.2 = .lexical)
    {run run' : Machine V S → Outcome V S}
    (hrun : ∀ m m', Related M R (Layout.counters names ++ L) m m' →
      (run m).Matches M R (InScope.openingAll names (Layout.counters names ++ L)) (run' m'))
    {m m' : Machine V S} (hm : Related M R L m m') :
    (inFrame names run m).Matches M R L (inFrame names run' m') := by
  refine (hrun { m with env := Env.opened names ++ m.env }
    { m' with env := Env.opened names ++ m'.env }
    (Aligned.enterLoop hm hlexical)).leave (by simp [Layout.roles_counters])
    (fun n => { n with env := n.env.drop names.length }) fun hroles hlength hn => ?_
  rw [← hlength]
  refine Aligned.leaveLoop (fun e he => ?_) hn
  rw [hroles, Layout.roles_counters] at he
  obtain ⟨x, -, rfl⟩ := List.mem_map.mp he
  rfl

theorem Leaves.framed {scope walk} {run : Nat → Machine V S → Outcome V S}
    (h : Leaves M R w (Layout.block scope names ++ L)
      (InScope.openingAll names (Layout.block scope names ++ L)) walk run stmts w') :
    LeavesBody M R w L walk (fun fuel => inFrame names (run fuel)) stmts w' where
  walks := h.walks
  hoisted := h.hoisted
  scope := h.scope
  located := ⟨_, h.located⟩
  flat := h.flat
  same fuel _ _ hm := inFrame_matches (h.same fuel) hm

theorem walks_walkAll_cons {visit rest first more w₁ w₂ outer ancestors}
    (hfirst : Succeeds (visit ancestors) w first w₁) (hhoisted : w₁.hoisted = [] :: outer)
    (hmore : Succeeds (walkAll ancestors rest) w₁ more w₂) :
    Succeeds (walkAll ancestors (visit :: rest)) w (first ++ more) w₂ := by
  have htaken : Succeeds takeHoisted w₁ [] w₁ := by
    obtain ⟨scopes, hoisted⟩ := w₁
    cases hhoisted
    simp
  rw [walkAll, hfirst.bind_iff, htaken.bind_iff, hmore.bind_iff]
  simp

/-- A list of statements is walked with hoisted statements of its own, of which there are none. -/
theorem walks_sequence {visits ancestors}
    (hwalk : Succeeds (walkAll ancestors visits) { w with hoisted := [] :: w.hoisted } stmts w')
    (hhoisted : w'.hoisted = [] :: w.hoisted) :
    Succeeds (sequence visits ancestors) w stmts { w' with hoisted := w.hoisted } := by
  rw [SlotForm.sequence, succeeds_modify_bind_iff, hwalk.bind_iff, succeeds_modify_bind_iff]
  simp [hhoisted]

theorem LeavesBody.inScope {kind visits} {run : Nat → Machine V S → Outcome V S}
    (h : Located w.scopes L)
    (hbody : LeavesBody M R { w with scopes := w.scopes.push kind } L
      (sequence visits) run stmts w') :
    Leaves M R w L L (SlotForm.inScope kind visits) run stmts
      { w' with scopes := w'.scopes.pop } := by
  obtain ⟨K, hK⟩ := hbody.located
  obtain ⟨hloc, hscope⟩ := h.pop hK hbody.scope
  refine ⟨fun ancestors => ?_, hbody.hoisted, hscope, hloc, hbody.flat, hbody.same⟩
  rw [SlotForm.inScope, walks_modifyScopes_bind_iff, (hbody.walks ancestors).bind_iff,
    walks_modifyScopes_bind_iff, succeeds_pure_iff]
  exact ⟨rfl, rfl⟩

end

/-! ## One lemma for each kind of statement -/

/-- What a walk over the statement leaves does the same. -/
def KeepsStmt (M : ValueModel V) (R : Runtime V S) (root : String) (stmt : Stmt) : Prop :=
  ∀ ⦃hidden : Bool⦄ ⦃w : Walk⦄ ⦃L : Layout⦄, Ready root hidden w L →
    Placed w.scopes.inner L (declaredBy stmt) → ((declaredBy stmt).map (·.1)).Nodup →
    covers root (L.mapRole Place.role) stmt = true → sparesUndefined hidden stmt = true →
    ∃ stmts w', Leaves M R w L (L.openingAll (declaredBy stmt)) (stmtVisits stmt).own
      (fun fuel => runStmt M R fuel stmt) stmts w'

/-- What a walk over the statements of a block leaves does the same. -/
def KeepsStmts (M : ValueModel V) (R : Runtime V S) (root : String) (body : List Stmt) : Prop :=
  ∀ ⦃hidden : Bool⦄ ⦃w : Walk⦄ ⦃L : Layout⦄ ⦃outer : List (List Stmt)⦄, Ready root hidden w L →
    w.hoisted = [] :: outer → Placed w.scopes.inner L (declaredIn body) →
    ((declaredIn body).map (·.1)).Nodup → coversAll root (L.mapRole Place.role) body = true →
    sparesUndefinedAll hidden body = true →
    ∃ stmts w', Leaves M R w L (L.openingAll (declaredIn body))
      (fun ancestors => walkAll ancestors (visits body))
      (fun fuel => runStmts M R fuel body) stmts w'

/-- What a walk over the statement leaves as the body of a branch or a loop does the same. -/
def KeepsBody (M : ValueModel V) (R : Runtime V S) (root : String) (stmt : Stmt) : Prop :=
  ∀ ⦃hidden : Bool⦄ ⦃w : Walk⦄ ⦃L : Layout⦄, Ready root hidden w L → FreshScope w.scopes L →
    properNames root (declaredBy stmt) = true →
    covers root ((L.mapRole Place.role).enter (declaredBy stmt)) stmt = true →
    sparesUndefined hidden stmt = true →
    ∃ stmts w', LeavesBody M R w L (sequence (stmtVisits stmt).body)
      (fun fuel => inFrame (declaredBy stmt) (runStmt M R fuel stmt)) stmts w'

section

variable {M : ValueModel V} {R : Runtime V S} {root : String} {stmt : Stmt} {stmts : List Stmt}

theorem properNames_nodup (h : properNames root names = true) : (names.map (·.1)).Nodup := by
  simp only [properNames, and_eq_true, decide_eq_true_eq] at h
  exact h.1

theorem KeepsStmts.sequence {body} (hbody : KeepsStmts M R root body) {hidden w}
    (h : Ready root hidden w L) (hfresh : FreshScope w.scopes L)
    (hnames : properNames root (declaredIn body) = true)
    (hcovers : coversAll root ((L.mapRole Place.role).enter (declaredIn body)) body = true)
    (hspares : sparesUndefinedAll hidden body = true) :
    ∃ stmts w', LeavesBody M R w L (SlotForm.sequence (visits body))
      (fun fuel => inFrame (declaredIn body) (runStmts M R fuel body)) stmts w' := by
  have hnodup := properNames_nodup hnames
  have hready := (h.enterBlock hfresh hnames).withHoisted ([] :: w.hoisted)
  obtain ⟨stmts, w', hleaves⟩ := hbody hready rfl (placed_block _ hnodup L) hnodup
    (by rw [mapRole_block]; exact hcovers) hspares
  have hframed := hleaves.framed
  exact ⟨stmts, { w' with hoisted := w.hoisted },
    fun ancestors => walks_sequence (hframed.walks ancestors) hframed.hoisted, rfl, hframed.scope,
    hframed.located, hframed.flat, hframed.same⟩

/-- A statement that is no block is the only one of the block that it is the body of. -/
theorem KeepsStmt.body (hvisits : (stmtVisits stmt).body = [(stmtVisits stmt).own])
    (hstmt : KeepsStmt M R root stmt) : KeepsBody M R root stmt := by
  intro hidden w L h hfresh hnames hcovers hspares
  have hnodup := properNames_nodup hnames
  have hready := (h.enterBlock hfresh hnames).withHoisted ([] :: w.hoisted)
  obtain ⟨stmts, w', hleaves⟩ := hstmt hready (placed_block _ hnodup L) hnodup
    (by rw [mapRole_block]; exact hcovers) hspares
  have hframed := hleaves.framed
  have hhoisted : w'.hoisted = [] :: w.hoisted := hframed.hoisted
  refine ⟨stmts, { w' with hoisted := w.hoisted }, fun ancestors => ?_, rfl, hframed.scope,
    hframed.located, hframed.flat, hframed.same⟩
  rw [hvisits]
  refine walks_sequence ?_ hhoisted
  rw [← List.append_nil stmts]
  exact walks_walkAll_cons (hframed.walks ancestors) hhoisted (by simp [walkAll])

theorem keepsStmts_nil : KeepsStmts M R root [] := by
  intro hidden w L outer h _ _ _ _ _
  exact ⟨[], w, fun _ => succeeds_pure_iff.mpr ⟨rfl, rfl⟩, rfl, .refl _, h.located, rfl,
    fun _ _ _ hm => ⟨rfl, hm⟩⟩

theorem keepsStmts_cons {rest} (hstmt : KeepsStmt M R root stmt)
    (hrest : KeepsStmts M R root rest) : KeepsStmts M R root (stmt :: rest) := by
  intro hidden w L outer h hhoisted hplaced hnodup hcovers hspares
  have hsplit : declaredIn (stmt :: rest) = declaredBy stmt ++ declaredIn rest := rfl
  replace hcovers := and_eq_true_iff.mp hcovers
  replace hspares := and_eq_true_iff.mp hspares
  rw [hsplit] at hplaced hnodup ⊢
  rw [List.map_append, List.nodup_append] at hnodup
  obtain ⟨hnodup₁, hnodup₂, hdisjoint⟩ := hnodup
  obtain ⟨first, w₁, hfirst⟩ :=
    hstmt h (fun x hx => hplaced x (by simp [hx])) hnodup₁ hcovers.1 hspares.1
  have hhoisted₁ : w₁.hoisted = [] :: outer := hfirst.hoisted.trans hhoisted
  -- what the first statement declares is open, the names behind it still have their places
  have hplaced₁ : Placed w₁.scopes.inner (L.openingAll (declaredBy stmt)) (declaredIn rest) := by
    refine Placed.sameScope hfirst.scope (Placed.openingAll ?_ _ ?_)
    · exact fun x hx => hplaced x (by simp [hx])
    · exact fun x hx y hy heq => hdisjoint x.1 (List.mem_map_of_mem (f := (·.1)) hx) y.1
        (List.mem_map_of_mem (f := (·.1)) hy) heq.symm
  obtain ⟨more, w₂, hmore⟩ := hrest (h.openingAll _ hfirst.scope hfirst.located) hhoisted₁ hplaced₁
    hnodup₂ (by rw [InScope.mapRole_openingAll]; exact hcovers.2) hspares.2
  refine ⟨first ++ more, w₂, fun ancestors => ?_, hmore.hoisted.trans hfirst.hoisted,
    hfirst.scope.trans hmore.scope, ?_, ?_, fun fuel m m' hm => ?_⟩
  · exact walks_walkAll_cons (hfirst.walks ancestors) hhoisted₁ (hmore.walks ancestors)
  · rw [InScope.openingAll_append]
    exact hmore.located
  · simp only [declaredIn, List.flatMap_append] at hfirst hmore ⊢
    exact List.append_eq_nil_iff.mpr ⟨hfirst.flat, hmore.flat⟩
  · rw [InScope.openingAll_append, runStmts_append]
    exact (hfirst.same fuel m m' hm).andThen (hmore.same fuel)

theorem keepsStmt_var (hR : R.Contract M) (kind : VarKind) (decls : List Declarator) :
    KeepsStmt M R root (.var kind decls) := by
  intro hidden w L h hplaced hnodup hcovers hspares
  obtain ⟨hkind, hdeclares⟩ := and_eq_true_iff.mp hcovers
  obtain ⟨stmts, w', hleaves⟩ := leaves_declarators hR (bne_iff_ne.mp hkind) decls h hplaced hnodup
    hdeclares fun hh => (Bool.or_eq_true_iff.mp hspares).resolve_left (by simp [hh])
  refine ⟨stmts, w', fun ancestors => hleaves.walks _, hleaves.hoisted, hleaves.scope,
    hleaves.located, hleaves.flat, hleaves.same⟩

theorem keepsStmt_expr (hR : R.Contract M) (value : Expr) : KeepsStmt M R root (.expr value) := by
  intro hidden w L h _ _ hcovers _
  obtain ⟨value', hwalk, hsame⟩ := walks_perform hR h.located value hcovers
  refine ⟨[.expr value'], w, fun ancestors => ?_, rfl, .refl _, h.located, rfl, ?_⟩
  · change Succeeds (visitExpr (operand value) ancestors) w _ _
    rw [visitExpr, (hwalk _).bind_iff]
    simp
  · intro fuel m m' hm
    rw [runStmts_singleton]
    exact hsame m m' hm

theorem keepsStmt_empty : KeepsStmt M R root .empty := by
  intro hidden w L h _ _ _ _
  refine ⟨[], w, fun _ => succeeds_pure_iff.mpr ⟨rfl, rfl⟩, rfl, .refl _, h.located, rfl, ?_⟩
  intro fuel m m' hm
  exact ⟨rfl, hm⟩

theorem keepsStmt_block {body} (hbody : KeepsStmts M R root body) :
    KeepsStmt M R root (.block body) := by
  intro hidden w L h _ _ hcovers hspares
  replace hcovers := and_eq_true_iff.mp hcovers
  obtain ⟨stmts, w', hleft⟩ := hbody.sequence (h.push .block) (h.located.fresh_push .block)
    hcovers.1 hcovers.2 hspares
  have hleaves := hleft.inScope h.located
  refine ⟨[.block stmts], _, fun ancestors => ?_, hleaves.hoisted, hleaves.scope, hleaves.located,
    rfl, fun fuel m m' hm => ?_⟩
  · change Succeeds (visitBlock (visits body) ancestors) w _ _
    rw [visitBlock, (hleaves.walks _).bind_iff]
    simp
  · rw [runStmts_singleton, runStmt_block M R fuel hleaves.flat]
    exact hleaves.same fuel m m' hm

theorem keepsBody_block {body} (hbody : KeepsStmts M R root body) :
    KeepsBody M R root (.block body) := by
  intro hidden w L h hfresh _ hcovers hspares
  replace hcovers := and_eq_true_iff.mp hcovers
  obtain ⟨stmts, w', hleft⟩ := hbody.sequence h hfresh hcovers.1 hcovers.2 hspares
  refine ⟨stmts, w', hleft.walks, hleft.hoisted, hleft.scope, hleft.located, hleft.flat, ?_⟩
  intro fuel m m' hm
  simp only [declaredBy, inFrame_nil]
  exact hleft.same fuel m m' hm

theorem runBody_block (hflat : declaredIn stmts = []) (fuel : Nat) :
    inFrame (declaredBy (.block stmts)) (runStmt M R fuel (.block stmts)) =
      runStmts M R fuel stmts := by
  rw [declaredBy, inFrame_nil, runStmt_block M R fuel hflat]
  simp

/-- The same after `else`, where a chain of branches goes on. -/
theorem runBody_alternateStmt (hflat : declaredIn stmts = []) (fuel : Nat) :
    inFrame (declaredBy (alternateStmt stmts)) (runStmt M R fuel (alternateStmt stmts)) =
      runStmts M R fuel stmts := by
  unfold alternateStmt
  split
  · funext m
    rw [declaredBy, inFrame_nil, runStmts_singleton]
    simp
  · exact runBody_block hflat fuel

theorem KeepsBody.inScope (hstmt : KeepsBody M R root stmt) {hidden w} (h : Ready root hidden w L)
    (kind : ScopeKind) (hnames : properNames root (declaredBy stmt) = true)
    (hcovers : covers root ((L.mapRole Place.role).enter (declaredBy stmt)) stmt = true)
    (hspares : sparesUndefined hidden stmt = true) :
    ∃ stmts w', Ready root hidden w' L ∧
      Leaves M R w L L (SlotForm.inScope kind (stmtVisits stmt).body)
        (fun fuel => inFrame (declaredBy stmt) (runStmt M R fuel stmt)) stmts w' := by
  obtain ⟨stmts, w', hleft⟩ :=
    hstmt (h.push kind) (h.located.fresh_push kind) hnames hcovers hspares
  have hleaves := hleft.inScope h.located
  exact ⟨stmts, _, h.openingAll [] hleaves.scope hleaves.located, hleaves⟩

/-- Branches with the same tests do the same if what they choose does. -/
theorem ifElse_matches {test test' consequent alternate alternate' fuel}
    (htest : ∀ m m', Related M R L m m' → eval M R m' test' = eval M R m test)
    (hflat : declaredIn stmts = [])
    (hthen : ∀ m m', Related M R L m m' →
      (inFrame (declaredBy consequent) (runStmt M R fuel consequent) m).Matches M R L
      (runStmts M R fuel stmts m'))
    (helse : ∀ m m', Related M R L m m' →
      (runElse M R fuel alternate m).Matches M R L (runElse M R fuel alternate' m'))
    {m m'} (hm : Related M R L m m') :
    (runStmt M R fuel (.ifElse test consequent alternate) m).Matches M R L
      (runStmts M R fuel [.ifElse test' (.block stmts) alternate'] m') := by
  rw [runStmts_singleton, runStmt_ifElse, runStmt_ifElse, runBody_block hflat]
  simp only [holds?, htest m m' hm]
  cases eval M R m test with
  | none => trivial
  | some v =>
    have hfirst (b : Bool) : Outcome.Matches M R L (some (m, [.test b])) (some (m', [.test b])) :=
      ⟨rfl, hm⟩
    simp only [Option.map_some, Option.bind_some]
    refine (hfirst (M.truthy v)).andThen fun n n' hn => ?_
    cases M.truthy v with
    | true => exact hthen n n' hn
    | false => exact helse n n' hn

theorem keepsStmt_ifElse (hR : R.Contract M) (test : Expr) {consequent alternate}
    (hconsequent : KeepsBody M R root consequent)
    (halternate : ∀ stmt ∈ alternate, KeepsBody M R root stmt) :
    KeepsStmt M R root (.ifElse test consequent alternate) := by
  intro hidden w L h _ _ hcovers hspares
  replace hspares := and_eq_true_iff.mp hspares
  obtain ⟨hcovers, hcoversElse⟩ := and_eq_true_iff.mp hcovers
  obtain ⟨hcovers, hcoversThen⟩ := and_eq_true_iff.mp hcovers
  obtain ⟨htest, hnames⟩ := and_eq_true_iff.mp hcovers
  obtain ⟨test', hwalkT, hevalT⟩ := walks_value hR h.located test htest
  obtain ⟨stmts, w₁, hready, hleaves⟩ :=
    hconsequent.inScope h .ifBranch hnames hcoversThen hspares.1
  cases alternate with
  | none =>
    refine ⟨[.ifElse test' (.block stmts) none], w₁, fun ancestors => ?_, hleaves.hoisted,
      hleaves.scope, hleaves.located, rfl, fun fuel m m' hm => ?_⟩
    · change Succeeds (visitIf (operand test) (stmtVisits consequent).body none ancestors) w _ _
      rw [visitIf, (hwalkT _).bind_iff, (hleaves.walks _).bind_iff]
      simp
    · refine ifElse_matches hevalT hleaves.flat (hleaves.same fuel) (fun n n' hn => ?_) hm
      exact ⟨rfl, hn⟩
  | some other =>
    replace hcoversElse := and_eq_true_iff.mp hcoversElse
    obtain ⟨others, w₂, -, hother⟩ := KeepsBody.inScope (halternate other rfl) hready .elseBranch
      hcoversElse.1 hcoversElse.2 hspares.2
    refine ⟨[.ifElse test' (.block stmts) (some (alternateStmt others))], w₂, fun ancestors => ?_,
      hother.hoisted.trans hleaves.hoisted, hleaves.scope.trans hother.scope, hother.located, rfl,
      fun fuel m m' hm => ?_⟩
    · change Succeeds (visitIf (operand test) (stmtVisits consequent).body
        (some (stmtVisits other).body) ancestors) w _ _
      simp only [visitIf]
      rw [(hwalkT _).bind_iff, (hleaves.walks _).bind_iff,
        (hother.walks _).bind_iff]
      simp
    · refine ifElse_matches hevalT hleaves.flat (hleaves.same fuel) (fun n n' hn => ?_) hm
      rw [runElse_some, runElse_some, runBody_alternateStmt hother.flat]
      exact hother.same fuel n n' hn

theorem keepsStmt_whileLoop (hR : R.Contract M) (test : Expr) {body}
    (hbody : KeepsBody M R root body) : KeepsStmt M R root (.whileLoop test body) := by
  intro hidden w L h _ _ hcovers hspares
  obtain ⟨hcovers, hcoversBody⟩ := and_eq_true_iff.mp hcovers
  obtain ⟨htest, hnames⟩ := and_eq_true_iff.mp hcovers
  obtain ⟨test', hwalkT, hevalT⟩ := walks_value hR h.located test htest
  obtain ⟨stmts, w', -, hleaves⟩ := hbody.inScope h .whileLoop hnames hcoversBody hspares
  refine ⟨[.whileLoop test' (.block stmts)], w', fun ancestors => ?_, hleaves.hoisted,
    hleaves.scope, hleaves.located, rfl, fun fuel m m' hm => ?_⟩
  · change Succeeds (visitWhile (operand test) (stmtVisits body).body ancestors) w _ _
    rw [visitWhile, (hwalkT _).bind_iff, (hleaves.walks _).bind_iff]
    simp
  · rw [runStmts_singleton, runStmt_whileLoop, runStmt_whileLoop, runBody_block hleaves.flat]
    refine Outcome.matches_runWhile ?_ (hleaves.same fuel) fuel m m' hm
    intro n n' hn
    simp [holds?, hevalT n n' hn]

theorem mem_declaredBy_var {decls x} (hx : x ∈ declaredBy (.var kind decls)) : x.2 = kind := by
  simp only [declaredBy, List.mem_flatMap, List.mem_map] at hx
  obtain ⟨d, -, name, -, rfl⟩ := hx
  rfl

theorem covers_counting (Γ : InScope Role) (decls : List Declarator) (test update : Option Expr)
    (body : Stmt) :
    covers root Γ (.forLoop (some (.declare .lexical decls)) test update body) =
      let counters := declaredBy (.var .lexical decls)
      let Γ' := (Γ.enterLoop counters).openingAll counters
      properNames root counters && declares (Γ.enterLoop counters) decls &&
        pureOver? Γ' test && assigns? Γ' update && properNames root (declaredBy body) &&
        covers root (Γ'.enter (declaredBy body)) body :=
  rfl

/-- A counting loop: its counters and its body share one scope of the walk. -/
theorem keepsStmt_counting (hR : R.Contract M) (decls : List Declarator) (test update : Option Expr)
    {body} (hbody : KeepsBody M R root body) :
    KeepsStmt M R root (.forLoop (some (.declare .lexical decls)) test update body) := by
  intro hidden w L h _ _ hcovers hspares
  simp only [covers_counting, and_eq_true] at hcovers
  obtain ⟨⟨⟨⟨⟨hnames, hdeclares⟩, htest⟩, hupdate⟩, hbodyNames⟩, hbodyCovers⟩ := hcovers
  have hready := (h.push .forLoop).enterLoop hnames
  rw [← mapRole_counters] at hdeclares htest hupdate hbodyCovers
  rw [← InScope.mapRole_openingAll] at htest hupdate hbodyCovers
  obtain ⟨decls', w₁, hwalkD, hhoistedD, hscopeD, hready₁, hnamesD, hsameD⟩ :=
    walks_counters hR decls hready (fun x hx => ⟨false, Layout.lookup_counters hx L⟩) hdeclares
  obtain ⟨test', hwalkT, hevalT⟩ := walks_value? hR hready₁.located test htest
  obtain ⟨update', hwalkU, hsameU⟩ := walks_perform? hR hready₁.located update hupdate
  -- no slot around the loop belongs to the scope of the loop
  have hfresh : FreshScope w₁.scopes (InScope.openingAll (declaredBy (.var .lexical decls))
        (Layout.counters (declaredBy (.var .lexical decls)) ++ L)) := by
    intro r hr x
    rw [hscopeD.slotName]
    exact h.located.fresh_push .forLoop r (by simpa using hr) x
  obtain ⟨stmts, w₂, hleft⟩ := hbody hready₁ hfresh hbodyNames hbodyCovers hspares
  obtain ⟨K, hK⟩ := hleft.located
  obtain ⟨hloc, hscope⟩ := h.located.pop hK (hscopeD.trans hleft.scope)
  refine ⟨[.forLoop (some (.declare .lexical decls')) test' update' (.block stmts)],
    { w₂ with scopes := w₂.scopes.pop }, fun ancestors => ?_, hleft.hoisted.trans hhoistedD, hscope,
    hloc, rfl, fun fuel m m' hm => ?_⟩
  · change Succeeds (visitFor (some (.declare .lexical (declaratorOperands decls))) (operand? test)
      (operand? update) (stmtVisits body).body ancestors) w _ _
    simp only [visitFor, InitOperand.slotForm]
    rw [walks_modifyScopes_bind_iff, bind_assoc, (hwalkD _).bind_iff]
    simp only [pure_bind]
    rw [(hwalkT _).bind_iff, (hwalkU _).bind_iff, (hleft.walks _).bind_iff]
    simp
  · rw [runStmts_singleton, runStmt_forLoop, runStmt_forLoop, runBody_block hleft.flat, hnamesD]
    refine inFrame_matches_loop (fun x hx => mem_declaredBy_var hx) (fun n n' hn => ?_) hm
    refine (hsameD n n' hn).andThen fun o o' ho => ?_
    refine Outcome.matches_runWhile (fun p p' hp => ?_) (fun p p' hp => ?_) fuel o o' ho
    · cases hevalT with
      | none => rfl
      | some heval => simp [holds?, heval p p' hp]
    · exact (hleft.same fuel p p' hp).andThen hsameU

theorem keepsStmt_forLoop (hR : R.Contract M) (init : Option ForInit) (test update : Option Expr)
    {body} (hbody : KeepsBody M R root body) :
    KeepsStmt M R root (.forLoop init test update body) := by
  match init with
  | some (.declare .lexical decls) => exact keepsStmt_counting hR decls test update hbody
  | none | some (.expr _) | some (.declare .var _) | some (.declare .constant _) =>
    intro hidden w L _ _ _ hcovers _
    exact absurd hcovers Bool.false_ne_true

/-- Nothing is claimed of a statement that is not covered. -/
theorem keepsStmt_of_uncovered (h : ∀ Γ, covers root Γ stmt = false) : KeepsStmt M R root stmt := by
  intro hidden w L _ _ _ hcovers _
  simp [h] at hcovers

theorem keepsBody_empty : KeepsBody M R root .empty := by
  intro hidden w L h _ _ _ _
  refine ⟨[], w, fun ancestors => ?_, rfl, .refl _, ⟨L, h.located⟩, rfl, fun fuel m m' hm => ?_⟩
  · have hwalk : Succeeds (walkAll ancestors (stmtVisits .empty).body)
        { w with hoisted := [] :: w.hoisted } [] { w with hoisted := [] :: w.hoisted } := by
      exact succeeds_pure_iff.mpr ⟨rfl, rfl⟩
    have hsequence := walks_sequence hwalk rfl
    exact hsequence
  · simp only [declaredBy, inFrame_nil]
    exact ⟨rfl, hm⟩

theorem KeepsStmt.both (hvisits : (stmtVisits stmt).body = [(stmtVisits stmt).own])
    (hstmt : KeepsStmt M R root stmt) : KeepsStmt M R root stmt ∧ KeepsBody M R root stmt :=
  ⟨hstmt, hstmt.body hvisits⟩

mutual
/-- Every statement keeps its meaning, on its own and as a body. -/
theorem keeps_stmt (hR : R.Contract M) :
    ∀ stmt : Stmt, KeepsStmt M R root stmt ∧ KeepsBody M R root stmt
  | .var kind decls => KeepsStmt.both rfl (keepsStmt_var hR kind decls)
  | .expr value => KeepsStmt.both rfl (keepsStmt_expr hR value)
  | .ifElse test consequent alternate =>
    KeepsStmt.both (by cases alternate <;> rfl)
      (keepsStmt_ifElse hR test (keeps_stmt hR consequent).2 (keeps_else hR alternate))
  | .whileLoop test body =>
    KeepsStmt.both rfl (keepsStmt_whileLoop hR test (keeps_stmt hR body).2)
  | .forLoop init test update body =>
    KeepsStmt.both rfl (keepsStmt_forLoop hR init test update (keeps_stmt hR body).2)
  | .block body => ⟨keepsStmt_block (keeps_stmts hR body), keepsBody_block (keeps_stmts hR body)⟩
  | .empty => ⟨keepsStmt_empty, keepsBody_empty⟩
  | .ret (some value) =>
    KeepsStmt.both (by cases value <;> rfl) (keepsStmt_of_uncovered fun _ => rfl)
  | .function _ | .ret none | .forEach _ _ _ _ _ | .breakLoop | .continueLoop =>
    KeepsStmt.both rfl (keepsStmt_of_uncovered fun _ => rfl)

theorem keeps_else (hR : R.Contract M) :
    ∀ alternate : Option Stmt, ∀ stmt ∈ alternate, KeepsBody M R root stmt
  | none => fun _ h => nomatch h
  | some other => fun stmt h => by
    obtain rfl : other = stmt := by simpa using h
    exact (keeps_stmt hR other).2

theorem keeps_stmts (hR : R.Contract M) : ∀ body : List Stmt, KeepsStmts M R root body
  | [] => keepsStmts_nil
  | stmt :: rest => keepsStmts_cons (keeps_stmt hR stmt).1 (keeps_stmts hR rest)
end

end

/-! ## Whole bodies -/

/-- The scopes that a unit starts with; which names are reserved or functions does not matter. -/
theorem located_ofRoot (root : String) (reserved functions : List String) :
    Located { Scopes.ofRoot root with reserved := reserved, userFunctions := functions } [] where
  plain := ⟨rfl, rfl, fun scope hscope b hb => by
    obtain rfl : scope = ⟨.global, 1, []⟩ := by simpa [Scopes.stack, Scopes.ofRoot] using hscope
    simp at hb⟩
  bound x p hx := by simp at hx
  proper e he := by simp [InScope.roles] at he
  nodup := List.nodup_nil
  numbered r hr := by simp [Layout.slots, InScope.roles] at hr
  inner := by simp [Scopes.ofRoot]

theorem slotName_global (x : String) : (⟨.global, 1, []⟩ : Scope).slotName x = "glb1_" ++ x := rfl

/-- Matching runs show the same trace, and both end or neither. -/
theorem Outcome.Matches.trace_eq {M : ValueModel V} {R : Runtime V S}
    {o o' : Outcome V S} (h : o.Matches M R L o') : o'.map (·.2) = o.map (·.2) := by
  match o, o', h with
  | none, none, _ => rfl
  | some (_, _), some (_, _), ⟨rfl, _⟩ => rfl

/-- Slot form keeps the meaning of a body: the walk over it succeeds, and under the contract of the
runtime its result takes the same branches and iterations and writes the same values in the same
order, with the same number of iterations left, whether or not the run ends.  If it ends, every
variable of the body has its value, and the slot of the variable holds it. -/
theorem slotUnit_keeps_meaning {M : ValueModel V} {R : Runtime V S} (hR : R.Contract M)
    {root : String} {body : List Stmt} (hbody : Slottable root body = true)
    (hspares : sparesUndefinedAll false body = true) (reserved functions : List String) :
    ∃ out : List Stmt, slotUnit body
          { Scopes.ofRoot root with reserved := reserved, userFunctions := functions } =
        .ok (.function ⟨none, [.ident contextName], .block out, true⟩) ∧
      ∀ (fuel : Nat) (store : S),
        (runBody M R fuel out store).map (·.2) = (runBody M R fuel body store).map (·.2) ∧
        ∀ m seen, runBody M R fuel body store = some (m, seen) →
          ∃ m', runBody M R fuel out store = some (m', seen) ∧
            ∀ x ∈ declaredIn body, ∃ v, m.env.lookup x.1 = some ⟨x.2, some v⟩ ∧
              R.get x.2 ("glb1_" ++ x.1) M.now m'.store = some v := by
  simp only [Slottable, and_eq_true] at hbody
  obtain ⟨hnames, hcovers⟩ := hbody
  have hnodup := properNames_nodup hnames
  -- the unit is walked in the global scope, where nothing is in scope yet
  have hstart : Ready root false
      ⟨{ Scopes.ofRoot root with reserved := reserved, userFunctions := functions }, []⟩ [] :=
    ⟨located_ofRoot root reserved functions, rfl, fun _ => by simp [InScope.roles]⟩
  have hfresh : FreshScope (Scopes.ofRoot root) [] :=
    fun r hr => by simp [Layout.slots, InScope.roles] at hr
  have hready := (hstart.enterBlock hfresh hnames).withHoisted [[]]
  obtain ⟨out, w', hleaves⟩ := keeps_stmts hR body hready rfl (placed_block _ hnodup []) hnodup
    (by rw [mapRole_block]; exact hcovers) hspares
  refine ⟨out, ?_, fun fuel store => ?_⟩
  · have hwalk : _ = _ := walks_sequence (hleaves.walks []) hleaves.hoisted
    simp only [slotUnit, StateT.run, hwalk]
    rfl
  · have hrelated : Related M R (Layout.block ⟨.global, 1, []⟩ (declaredIn body) ++ [])
        ⟨Env.opened (declaredIn body), store⟩ ⟨[], store⟩ := by
      simpa [Related] using Aligned.enterBlock (.nil : Aligned M R store [] [] []) ⟨.global, 1, []⟩
        (declaredIn body)
    have hmatch := hleaves.same fuel _ _ hrelated
    have hout : runStmts M R fuel out ⟨[], store⟩ = runBody M R fuel out store := by
      rw [runBody, hleaves.flat]
      rfl
    rw [hout] at hmatch
    refine ⟨hmatch.trace_eq, fun m seen hm => ?_⟩
    rw [← runBody, hm] at hmatch
    rcases hm' : runBody M R fuel out store with _ | ⟨m', seen'⟩
    · rw [hm'] at hmatch
      exact hmatch.elim
    · rw [hm'] at hmatch
      obtain ⟨rfl, hend⟩ := hmatch
      refine ⟨m', rfl, fun x hx => ?_⟩
      have hplace := InScope.lookup_openingAll (placed_block ⟨.global, 1, []⟩ hnodup [] x hx)
        (declaredIn body)
      have hopen : (declaredIn body).any (·.1 == x.1) = true :=
        List.any_eq_true.mpr ⟨x, hx, by simp⟩
      rw [hopen] at hplace
      rw [← slotName_global]
      exact Aligned.lookup_open hend hplace

/-! ## A runtime of cells

Whole numbers, with the undefined value among them, over a store with a cell for every slot. -/

/-- Whole numbers; `none` is the undefined value, and truth is one. -/
def wholeNumbers : ValueModel (Option Int) where
  literal
    | .num (.finite negative x) => some (Number.Double.signedUnits negative x / 2 ^ 1074)
    | .bool b => some b.toInt
    | _ => none
  undefined := none
  truthy v := v.any (· != 0)
  nullish v := v.isNone
  unary op v :=
    match op with
    | .neg => some (v.map (- ·))
    | .not => some (some (!v.any (· != 0)).toInt)
    | _ => some v
  arithmetic op a b := some <| do
    let x ← a
    let y ← b
    match op with
    | .add => some (x + y)
    | .sub => some (x - y)
    | .mul => some (x * y)
    | .lt => some (decide (x < y)).toInt
    | .gt => some (decide (y < x)).toInt
    | _ => none
  equal a b := some (some (a == b).toInt)
  count op v :=
    match op with
    | .increment => some (v.map (· + 1))
    | .decrement => some (v.map (· - 1))

/-- A store with a cell for every slot. -/
abbrev Cells := VarKind × String → Option (Option Int)

/-- The runtime that keeps the current value of every slot. -/
def cellRuntime : Runtime (Option Int) Cells where
  init kind renamed v store := fun slot => if slot = (kind, renamed) then some v else store slot
  set kind renamed v store := fun slot => if slot = (kind, renamed) then some v else store slot
  get kind renamed _ store := store (kind, renamed)
  equal := wholeNumbers.equal

theorem cellRuntime_contract : cellRuntime.Contract wholeNumbers where
  get_init kind renamed v store := by simp [cellRuntime]
  get_init_ne kind renamed v store kind' renamed' hne := by simp only [cellRuntime, if_neg hne]
  get_set kind renamed v store := by simp [cellRuntime]
  get_set_ne kind renamed v store kind' renamed' hne := by simp only [cellRuntime, if_neg hne]
  equal_eq := rfl

/-- Shadowing, a compound assignment, both kinds of loop, a declaration without a value, and a
counter with the name of the undefined value:
`let n = 0; const step = 2;`
`for (let i = 0; i < 3; i++) { if (i == 1) { let n = i * 10; n += step; } else n += step; }`
`while (n < 6) { let m; m = n; n = m + 1; }`
`for (let undefined = 3; undefined < 4; undefined += 1) { let x = undefined; n = x; }` -/
def manyShapes : List Stmt :=
  [.var .lexical [⟨.ident "n", some (.nat 0)⟩], .var .constant [⟨.ident "step", some (.nat 2)⟩],
    .forLoop (some (.declare .lexical [⟨.ident "i", some (.nat 0)⟩]))
      (some (.binary .lt (.ident "i") (.nat 3))) (some (.update .increment false (.ident "i")))
      (.block [.ifElse (.binary .eq (.ident "i") (.nat 1))
        (.block [.var .lexical [⟨.ident "n", some (.binary .mul (.ident "i") (.nat 10))⟩],
          .expr (.assign .add (.ident "n") (.ident "step"))])
        (some (.expr (.assign .add (.ident "n") (.ident "step"))))]),
    .whileLoop (.binary .lt (.ident "n") (.nat 6)) (.block [.var .lexical [⟨.ident "m", none⟩],
        .expr (.assign .assign (.ident "m") (.ident "n")),
        .expr (.assign .assign (.ident "n") (.binary .add (.ident "m") (.nat 1)))]),
    .forLoop (some (.declare .lexical [⟨.ident "undefined", some (.nat 3)⟩]))
      (some (.binary .lt (.ident "undefined") (.nat 4)))
      (some (.assign .add (.ident "undefined") (.nat 1)))
      (.block [.var .lexical [⟨.ident "x", some (.ident "undefined")⟩],
        .expr (.assign .assign (.ident "n") (.ident "x"))])]

theorem manyShapes_keeps_meaning :
    Slottable "context" manyShapes = true ∧ sparesUndefinedAll false manyShapes = true ∧
      (runBody wholeNumbers cellRuntime 5 manyShapes fun _ => none).isSome = true ∧
      ∃ out : List Stmt,
        slotUnit manyShapes { Scopes.ofRoot "context" with reserved := [], userFunctions := [] } =
          .ok (.function ⟨none, [.ident contextName], .block out, true⟩) ∧
        ∀ (fuel : Nat) (store : Cells),
          (runBody wholeNumbers cellRuntime fuel out store).map (·.2) =
            (runBody wholeNumbers cellRuntime fuel manyShapes store).map (·.2) := by
  have hbody : Slottable "context" manyShapes = true := by decide +kernel
  have hspares : sparesUndefinedAll false manyShapes = true := by decide +kernel
  refine ⟨hbody, hspares, by decide +kernel, ?_⟩
  obtain ⟨out, hout, hruns⟩ := slotUnit_keeps_meaning cellRuntime_contract hbody hspares [] []
  exact ⟨out, hout, fun fuel store => (hruns fuel store).1⟩

/-- `let y = 0; for (let undefined = 3; undefined < 4; undefined += 1) { let x; y = x; }` -/
def hiddenUndefined : List Stmt :=
  [.var .lexical [⟨.ident "y", some (.nat 0)⟩],
    .forLoop (some (.declare .lexical [⟨.ident "undefined", some (.nat 3)⟩]))
      (some (.binary .lt (.ident "undefined") (.nat 4)))
      (some (.assign .add (.ident "undefined") (.nat 1)))
      (.block [.var .lexical [⟨.ident "x", none⟩],
        .expr (.assign .assign (.ident "y") (.ident "x"))])]

/-- A counter with the name of the undefined value is what a variable without a value starts
with. -/
theorem hiddenUndefined_changes_meaning : Slottable contextName hiddenUndefined = true ∧
        ∃ out : List Stmt, slotUnit hiddenUndefined (Scopes.ofRoot contextName) =
          .ok (.function ⟨none, [.ident contextName], .block out, true⟩) ∧
        (runBody wholeNumbers cellRuntime 2 hiddenUndefined fun _ => none).map (·.2) =
          some [.write (some 0), .write (some 3), .test true, .write none, .write none,
            .write (some 4), .test false] ∧
        (runBody wholeNumbers cellRuntime 2 out fun _ => none).map (·.2) =
          some [.write (some 0), .write (some 3), .test true, .write (some 3), .write (some 3),
            .write (some 4), .test false] := by
  refine ⟨by decide +kernel, _, rfl, by decide +kernel, by decide +kernel⟩

end IndicatorCompiler.Script
