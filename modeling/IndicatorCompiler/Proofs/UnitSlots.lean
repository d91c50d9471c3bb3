import IndicatorCompiler.Proofs.CallSites

/-!
# The slots of a unit

The survey of a unit and the walk over it do nothing to the scopes but operate on them, from scopes
that know nothing on.  A declaration initialises the slot that its own operation makes.  So the
declarations of a unit are those of a run, and declarations in different scopes get different slots.
-/

namespace IndicatorCompiler.SlotForm

open Script Survey
open Scopes (Operation Declared ofRoot openers slotAt? perform_append eq_of_renamed_eq
  slotRef_injective)

/-! ## Steps that go on with a run -/

/-- Wherever a run has come, the step goes on with it, and `Q` ties what it returns to the longer
run. -/
def Continues {α : Type} (root : String) (step : Slotting α)
    (Q : List Operation → α → Prop) : Prop :=
  ∀ ops hoisted a w, Succeeds step ⟨(ofRoot root).perform ops, hoisted⟩ a w →
    ∃ more, w.scopes = (ofRoot root).perform (ops ++ more) ∧ Q (ops ++ more) a

theorem SlotsNamed.apply {s} (h : SlotsNamed s) (op : Operation) : SlotsNamed (s.apply op) := by
  cases op with
  | push kind => exact h.push kind
  | pop => exact h.pop
  | enterFunction frame => exact (Handed.enterFunction s frame).named h
  | exitFunction => exact (Handed.exitFunction s).named h
  | addVariable x kind => exact (Handed.addVariable s x kind).named h
  | addSeriesTemp x => exact (Handed.addVariable s x .lexical).named h
  | addContextBound x => exact (Handed.addContextBound s x).named h
  | addLoopVariable x => exact (Handed.addLoopVariable s x).named h
  | addTemp x => exact (Handed.addTemp s x).named h
  | _ => exact h

/-- In a run every slot is named after its variable. -/
theorem slotsNamed_perform (root : String) (ops : List Operation) :
    SlotsNamed ((ofRoot root).perform ops) := by
  induction ops using List.reverseRecOn with
  | nil =>
    intro scope hscope x renamed kind hmem
    obtain rfl := List.mem_singleton.mp hscope
    cases hmem
  | append_singleton ops op ih =>
    rw [perform_append]
    exact ih.apply op

/-- A step that is traced operates on the scopes. -/
theorem Traced.performed {cut root ops w w' src} {view : List Sight → List Sight}
    (h : Traced cut w w' src view) (hw : w.scopes = (ofRoot root).perform ops) :
    ∃ more, w'.scopes = (ofRoot root).perform (ops ++ more) := by
  obtain ⟨front, new, hstep⟩ := h.steps (hw ▸ slotsNamed_perform root ops)
  obtain ⟨more, hmore⟩ := hstep.handed.performed
  exact ⟨more, by rw [hmore, hw, perform_append]⟩

theorem continues_sequence (root : String) (body : List Stmt) (ancestors : Ancestors) :
    Continues root (sequence (visits body) ancestors) fun _ _ => True := by
  intro ops hoisted out w hwalk
  have hsteady : false = true → everyStmt steady body = true := by simp
  obtain ⟨more, hmore⟩ := (traced_sequence hsteady hwalk).performed rfl
  exact ⟨more, hmore, trivial⟩

/-! ## Declarations -/

/-- What the last operation of a run makes is told by the scopes before it. -/
theorem slotAt?_concat (root : String) (ops : List Operation) (op : Operation) :
    slotAt? root (ops ++ [op]) ((ops ++ [op]).length - 1) =
    ((ofRoot root).perform ops).slot? op := by
  simp [slotAt?]

/-- The statement declares the variable in the slot that the last operation of the run makes.  Only
temporaries and names that are bound to the context stay plain bindings. -/
def DeclaresLast (root : String) (kind : VarKind) (x : String) (ops : List Operation)
    (stmt : Stmt) : Prop :=
  (∃ d value, slotAt? root ops (ops.length - 1) = some d ∧ d.name = x ∧ d.kind = kind ∧
    stmt = initSlot (initMethod kind) (slotRef kind d.renamed) value) ∨
  (((ofRoot root).perform ops).resolve x = .localTemp ∨
    ((ofRoot root).perform ops).resolve x = .contextBound) ∧
    ∃ init, stmt = .var kind [⟨.ident x, init⟩]

theorem continues_declareName (root : String) (kind : VarKind) (x : String) (init : Option Expr)
    (ancestors : Ancestors) :
    Continues root (declareName kind x (operand? init) ancestors) (DeclaresLast root kind x) := by
  intro ops hoisted out w hwalk
  unfold declareName at hwalk
  rw [succeeds_bind_iff] at hwalk
  obtain ⟨v, w₁, hv, hwalk⟩ := hwalk
  have hsteady : false = true → everyExpr? steady init = true := by simp
  obtain ⟨more, hmore⟩ := (traced (slotExpr?_value? hv) hsteady).performed rfl
  rw [walks_resolve_bind_iff] at hwalk
  split at hwalk
  · rename_i htemp
    obtain ⟨rfl, rfl⟩ := succeeds_pure_iff.mp hwalk
    exact ⟨more, hmore, .inr ⟨.inl (hmore ▸ htemp), v, rfl⟩⟩
  · rw [walks_nameFromScopes_bind_iff] at hwalk
    by_cases hbound : w₁.scopes.resolve x = .contextBound
    · rw [Scopes.addVariable, if_pos hbound, if_pos rfl] at hwalk
      obtain ⟨rfl, rfl⟩ := succeeds_pure_iff.mp hwalk
      exact ⟨more, hmore, .inr ⟨.inr (hmore ▸ hbound), v, rfl⟩⟩
    · have hname : (w₁.scopes.addVariable x kind).1 ≠ x := by
        rw [Scopes.addVariable, if_neg hbound]
        exact w₁.scopes.inner.slotName_ne x
      rw [if_neg hname] at hwalk
      obtain ⟨rfl, rfl⟩ := succeeds_pure_iff.mp hwalk
      refine ⟨more ++ [.addVariable x kind], ?_, .inl
        ⟨⟨x, kind, (w₁.scopes.addVariable x kind).1⟩, _, ?_, rfl, rfl, rfl⟩⟩
      · rw [← List.append_assoc, perform_append, ← hmore]
        rfl
      · rw [← List.append_assoc, slotAt?_concat, ← hmore, Scopes.slot?, if_neg hbound]

/-- The slot is the one that the last operation of the run makes, for a temporary.  Only a name that
is bound to the context gets none. -/
def KeepsLast (root : String) (ops : List Operation) (slot : Expr) : Prop :=
  (∃ d, slotAt? root ops (ops.length - 1) = some d ∧ slot = slotRef d.kind d.renamed) ∨
  ∃ temp, ((ofRoot root).perform ops).resolve temp = .contextBound ∧ slot = slotRef .lexical temp

theorem continues_seriesTemp (root : String) (value : Expr) (ancestors : Ancestors) :
    Continues root (seriesTemp value ancestors) (KeepsLast root) := by
  intro ops hoisted slot w hwalk
  rw [seriesTemp, walks_nameFromScopes_bind_iff, walks_nameFromScopes_bind_iff,
    succeeds_bind_iff] at hwalk
  obtain ⟨_, _, hhoist, hslot⟩ := hwalk
  obtain ⟨first, rest, -, rfl⟩ := walks_hoist_iff.mp hhoist
  obtain ⟨rfl, rfl⟩ := succeeds_pure_iff.mp hslot
  have hnamed : ((ofRoot root).perform ops).generateTemp.2 =
      (ofRoot root).perform (ops ++ [.generateTemp]) := (perform_append _ ops [.generateTemp]).symm
  dsimp only
  generalize ((ofRoot root).perform ops).generateTemp.1 = temp
  rw [hnamed]
  have hrun : (ofRoot root).perform (ops ++ [.generateTemp, .addSeriesTemp temp]) =
      (((ofRoot root).perform (ops ++ [.generateTemp])).addSeriesTemp temp).2 := by
    rw [List.append_cons, perform_append]
    rfl
  refine ⟨[.generateTemp, .addSeriesTemp temp], hrun.symm, ?_⟩
  by_cases hbound : ((ofRoot root).perform (ops ++ [.generateTemp])).resolve temp = .contextBound
  · refine .inr ⟨temp, ?_, ?_⟩
    · rw [hrun, Scopes.addSeriesTemp, Scopes.addVariable, if_pos hbound, hbound]
    · rw [Scopes.addSeriesTemp, Scopes.addVariable, if_pos hbound]
  · refine .inl
      ⟨⟨temp, .lexical, (((ofRoot root).perform (ops ++ [.generateTemp])).addSeriesTemp temp).1⟩,
      ?_, rfl⟩
    rw [List.append_cons, slotAt?_concat, Scopes.slot?, if_neg hbound]

/-! ## The survey -/

/-- The names of a body are made known by operations. -/
theorem exists_perform_knownScopes (root : String) (uses : List NameUse)
    (contextBound : List String) :
    ∃ ops, knownScopes root uses contextBound = (ofRoot root).perform ops := by
  refine ⟨(uses.map (·.name)).map .reserve ++ (uses.filterMap (·.function?)).map .addUserFunction ++
    contextBound.map .markContextBound, ?_⟩
  simp only [knownScopes, Scopes.perform, List.foldl_append, List.foldl_map]
  rfl

/-- The survey of a unit operates on scopes that know nothing. -/
theorem exists_perform_survey {program s} (h : survey program = .ok s) :
    ∃ ops, s.scopes = (ofRoot s.rootName).perform ops := by
  obtain ⟨source, -, hnormal⟩ := survey_eq_ok h
  have hroot :=
    knownScopes_rootName s.rootName (namesInStmts source) (contextNames s.rootName source)
  obtain ⟨⟨-, hhanded⟩, -⟩ := NormalForm.yields_normalStmts (handsNothing _ _) source
    ⟨hroot, .refl _⟩ hnormal
  obtain ⟨known, hknown⟩ := exists_perform_knownScopes s.rootName (namesInStmts source)
    (contextNames s.rootName source)
  obtain ⟨ops, hops⟩ := hhanded.performed
  exact ⟨known ++ ops, by rw [hops, hknown, perform_append]⟩

/-- **Slots are never shared.**  In every run, two declarations that make slots of one name declare
the same variable while the same scope is innermost: the one that was entered by one and the same
operation.  So declarations in different scopes make different slots, of whatever kinds.

The scopes of a surveyed unit come from such a run.  The walk over its statements goes on with the
run, and so does the walk over the statements of a block.  Each declaration on the way initialises
the slot that the last operation up to then makes, and so does a temporary that keeps the history of
a value. -/
theorem slots_never_shared : (∀ (root : String) (ops : List Operation) (i j : Nat) (d e : Declared),
      slotAt? root ops i = some d → slotAt? root ops j = some e → (d.renamed = e.renamed →
          d.name = e.name ∧ (openers (ops.take i)).inner = (openers (ops.take j)).inner) ∧
        ((openers (ops.take i)).inner ≠ (openers (ops.take j)).inner →
          slotRef d.kind d.renamed ≠ slotRef e.kind e.renamed)) ∧
    (∀ (program : Program) (s : Surveyed), survey program = .ok s →
      ∃ ops, s.scopes = (ofRoot s.rootName).perform ops) ∧
    ∀ (root : String) (ancestors : Ancestors),
      (∀ body, Continues root (sequence (visits body) ancestors) fun _ _ => True) ∧
      (∀ kind x init, Continues root (declareName kind x (operand? init) ancestors)
        (DeclaresLast root kind x)) ∧
      ∀ value, Continues root (seriesTemp value ancestors) (KeepsLast root) := by
  refine ⟨fun root ops i j d e hd he => ⟨eq_of_renamed_eq hd he, fun hdifferent hsame => ?_⟩,
    fun program s => exists_perform_survey, fun root ancestors => ⟨?_, ?_, ?_⟩⟩
  · exact hdifferent (eq_of_renamed_eq hd he (slotRef_injective hsame)).2
  · exact fun body => continues_sequence root body ancestors
  · exact fun kind x init => continues_declareName root kind x init ancestors
  · exact fun value => continues_seriesTemp root value ancestors

/-- Two branches that declare a variable of one name, the second behind the first. -/
def siblingBranches : List Operation :=
  [.push .ifBranch, .addVariable "x" .lexical, .pop, .push .ifBranch, .addVariable "x" .constant]

theorem siblingBranches_not_shared :
    slotAt? "ctx" siblingBranches 1 = some ⟨"x", .lexical, "if1_x"⟩ ∧
      slotAt? "ctx" siblingBranches 4 = some ⟨"x", .constant, "if2_x"⟩ ∧
      slotRef .lexical "if1_x" ≠ slotRef .constant "if2_x" := by
  have hfirst : slotAt? "ctx" siblingBranches 1 = some ⟨"x", .lexical, "if1_x"⟩ := by decide +kernel
  have hsecond : slotAt? "ctx" siblingBranches 4 = some ⟨"x", .constant, "if2_x"⟩ := by
    decide +kernel
  refine ⟨hfirst, hsecond, ?_⟩
  exact (slots_never_shared.1 "ctx" siblingBranches 1 4 _ _ hfirst hsecond).2 (by decide)

end IndicatorCompiler.SlotForm
