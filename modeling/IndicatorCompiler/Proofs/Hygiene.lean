import IndicatorCompiler.Proofs.CallSites

/-!
# Names that clash

Temporaries and captures avoid every name that a declaration, a loop or a parameter of the unit
binds, since the survey enters all of them.  It does not enter the names of function expressions,
names that are only used, and the parameter of the unit; where one of those is spelled like a
generated name, it may be generated all the same.
-/

namespace IndicatorCompiler.Survey

open Script

/-! ## Identifiers -/

/-- How an identifier occurs. -/
inductive Occurrence where
  /-- An expression refers to it. -/
  | used (name : String)
  /-- A declaration, a loop or a parameter binds it. -/
  | bound (name : String)
  /-- It is the name of a function expression. -/
  | own (name : String)
  deriving DecidableEq, Repr

/-- The identifier itself. -/
def Occurrence.name : Occurrence → String
  | used x | bound x | own x => x

mutual
/-- The identifiers of an expression. -/
def identifiersInExpr : Expr → List Occurrence
  | .ident name => [.used name]
  | .lit _ => []
  | .array items | .sequence items => identifiersInExprs items
  | .object properties => identifiersInProperties properties
  | .function f =>
    (match f with
      | ⟨name, _, _, _⟩ => name.toList.map .own) ++ identifiersInFunction f
  | .unary _ arg | .update _ _ arg | .spread arg => identifiersInExpr arg
  | .binary _ left right => identifiersInExpr left ++ identifiersInExpr right
  | .assign _ target value => identifiersInExpr target ++ identifiersInExpr value
  | .conditional test consequent alternate =>
    identifiersInExpr test ++ identifiersInExpr consequent ++ identifiersInExpr alternate
  | .call callee args | .new callee args => identifiersInExpr callee ++ identifiersInExprs args
  | .member base _ => identifiersInExpr base
  | .index base i => identifiersInExpr base ++ identifiersInExpr i

/-- The identifiers of several expressions. -/
def identifiersInExprs : List Expr → List Occurrence
  | [] => []
  | e :: rest => identifiersInExpr e ++ identifiersInExprs rest

/-- The identifiers of an expression, if there is one. -/
def identifiersInExpr? : Option Expr → List Occurrence
  | none => []
  | some e => identifiersInExpr e

/-- The identifiers of properties; keys are none. -/
def identifiersInProperties : List Property → List Occurrence
  | [] => []
  | ⟨.computed key, value, _⟩ :: rest =>
    identifiersInExpr key ++ identifiersInExpr value ++ identifiersInProperties rest
  | ⟨_, value, _⟩ :: rest => identifiersInExpr value ++ identifiersInProperties rest

/-- The identifiers of parameters and body. -/
def identifiersInFunction : Function → List Occurrence
  | ⟨_, params, body, _⟩ => identifiersInPatterns params ++ identifiersInBody body

/-- The identifiers of several patterns. -/
def identifiersInPatterns : List Pattern → List Occurrence
  | [] => []
  | pattern :: rest => identifiersInPattern pattern ++ identifiersInPatterns rest

/-- The identifiers of a function body. -/
def identifiersInBody : FunctionBody → List Occurrence
  | .block body => identifiersInStmts body
  | .expr value => identifiersInExpr value

/-- The identifiers of a pattern. -/
def identifiersInPattern : Pattern → List Occurrence
  | .ident name => [.bound name]
  | .array items => identifiersInItems items
  | .object properties => identifiersInPatternProperties properties
  | .withDefault target value => identifiersInPattern target ++ identifiersInExpr value
  | .rest target => identifiersInPattern target

/-- The identifiers of the elements of a pattern. -/
def identifiersInItems : List (Option Pattern) → List Occurrence
  | [] => []
  | none :: rest => identifiersInItems rest
  | some pattern :: rest => identifiersInPattern pattern ++ identifiersInItems rest

/-- The identifiers of the properties of a pattern. -/
def identifiersInPatternProperties : List PatternProperty → List Occurrence
  | [] => []
  | ⟨_, value⟩ :: rest => identifiersInPattern value ++ identifiersInPatternProperties rest

/-- The identifiers of a statement. -/
def identifiersInStmt : Stmt → List Occurrence
  | .var _ decls => identifiersInDeclarators decls
  | .function f =>
    (match f with
      | ⟨name, _, _, _⟩ => name.toList.map .bound) ++ identifiersInFunction f
  | .ret value => identifiersInExpr? value
  | .ifElse test consequent alternate =>
    identifiersInExpr test ++ identifiersInStmt consequent ++ (match alternate with
        | none => []
        | some stmt => identifiersInStmt stmt)
  | .forLoop init test update body =>
    (match init with
      | none => []
      | some init => identifiersInInit init) ++ identifiersInExpr? test ++
      identifiersInExpr? update ++ identifiersInStmt body
  | .forEach _ _ pattern right body =>
    identifiersInPattern pattern ++ identifiersInExpr right ++ identifiersInStmt body
  | .whileLoop test body => identifiersInExpr test ++ identifiersInStmt body
  | .block body => identifiersInStmts body
  | .expr value => identifiersInExpr value
  | .breakLoop | .continueLoop | .empty => []

/-- The identifiers of several statements. -/
def identifiersInStmts : List Stmt → List Occurrence
  | [] => []
  | stmt :: rest => identifiersInStmt stmt ++ identifiersInStmts rest

/-- The identifiers of bindings. -/
def identifiersInDeclarators : List Declarator → List Occurrence
  | [] => []
  | ⟨id, init⟩ :: rest =>
    identifiersInPattern id ++ identifiersInExpr? init ++ identifiersInDeclarators rest

/-- The identifiers of what a loop starts with. -/
def identifiersInInit : ForInit → List Occurrence
  | .declare _ decls => identifiersInDeclarators decls
  | .expr value => identifiersInExpr value
end

/-! ## The survey enters what is bound -/

/-- The names take in whatever is bound. -/
def Covers (names : List NameUse) (occurrences : List Occurrence) : Prop :=
  ∀ x, .bound x ∈ occurrences → x ∈ names.map (·.name)

namespace Covers

variable {us vs : List NameUse} {a b : List Occurrence}

theorem nil : Covers us [] := fun _ h => by cases h

theorem used (x : String) : Covers us [.used x] := fun _ h => by simp at h

theorem append (h : Covers us a) (h' : Covers vs b) : Covers (us ++ vs) (a ++ b) := by
  intro x hx
  rw [List.map_append, List.mem_append]
  exact (List.mem_append.mp hx).imp (h x) (h' x)

theorem mono (h : Covers us a) (hsub : us ⊆ vs) : Covers vs a :=
  fun x hx => List.map_subset _ hsub (h x hx)

/-- The name of a function expression is not bound around it. -/
theorem own (h : Covers us a) (name : Option String) : Covers us (name.toList.map .own ++ a) := by
  intro x hx
  refine h x ((List.mem_append.mp hx).resolve_left fun hown => ?_)
  obtain ⟨y, -, hy⟩ := List.mem_map.mp hown
  cases hy

end Covers

mutual
theorem covers_expr : (e : Expr) → Covers (namesInExpr e) (identifiersInExpr e)
  | .ident x => .used x
  | .lit _ => .nil
  | .array items | .sequence items => covers_exprs items
  | .object ps => covers_properties ps
  | .function ⟨name, params, body, arrow⟩ => .own (covers_function ⟨name, params, body, arrow⟩) name
  | .unary _ arg | .update _ _ arg | .spread arg => covers_expr arg
  | .binary _ left right => (covers_expr left).append (covers_expr right)
  | .assign _ target value => (covers_expr target).append (covers_expr value)
  | .conditional test consequent alternate =>
    ((covers_expr test).append (covers_expr consequent)).append (covers_expr alternate)
  | .call callee args | .new callee args => (covers_expr callee).append (covers_exprs args)
  | .member base _ => covers_expr base
  | .index base i => (covers_expr base).append (covers_expr i)

theorem covers_exprs : (es : List Expr) → Covers (namesInExprs es) (identifiersInExprs es)
  | [] => .nil
  | e :: rest => (covers_expr e).append (covers_exprs rest)

theorem covers_expr? : (e : Option Expr) → Covers (namesInExpr? e) (identifiersInExpr? e)
  | none => .nil
  | some e => covers_expr e

theorem covers_properties :
    (ps : List Property) → Covers (namesInProperties ps) (identifiersInProperties ps)
  | [] => .nil
  | ⟨.computed key, value, _⟩ :: rest =>
    ((covers_expr key).append (covers_expr value)).append (covers_properties rest)
  | ⟨.name _, value, _⟩ :: rest
  | ⟨.str _, value, _⟩ :: rest => (covers_expr value).append (covers_properties rest)

theorem covers_function : (f : Function) → Covers (namesInFunction f) (identifiersInFunction f)
  | ⟨_, params, body, _⟩ => (covers_params params).append (covers_body body)

theorem covers_params : (ps : List Pattern) → Covers (namesInParams ps) (identifiersInPatterns ps)
  | [] => .nil
  | param :: rest =>
    .append (covers_pattern NameUse.parameter (fun _ => rfl) param) (covers_params rest)

theorem covers_body : (b : FunctionBody) → Covers (namesInBody b) (identifiersInBody b)
  | .block body => covers_stmts body
  | .expr value => covers_expr value

theorem covers_pattern (use : String → NameUse) (huse : ∀ x, (use x).name = x) : (p : Pattern) →
    Covers (p.boundNames.map use ++ namesInDefaults p) (identifiersInPattern p)
  | .ident x => fun y hy => by
    obtain rfl : y = x := by simpa [identifiersInPattern] using hy
    simp [Pattern.boundNames, huse]
  | .array items => covers_items use huse items
  | .object ps => covers_patternProperties use huse ps
  | .withDefault target value => by
    have h := (covers_pattern use huse target).append (covers_expr value)
    rwa [List.append_assoc] at h
  | .rest target => covers_pattern use huse target

theorem covers_items (use : String → NameUse) (huse : ∀ x, (use x).name = x) :
    (items : List (Option Pattern)) →
    Covers ((boundInItems items).map use ++ namesInItemDefaults items) (identifiersInItems items)
  | [] => .nil
  | none :: rest => covers_items use huse rest
  | some p :: rest => by
    refine ((covers_pattern use huse p).append (covers_items use huse rest)).mono fun _ => ?_
    simp only [boundInItems, namesInItemDefaults, List.map_append, List.mem_append]
    tauto

theorem covers_patternProperties (use : String → NameUse) (huse : ∀ x, (use x).name = x) :
    (ps : List PatternProperty) →
    Covers ((boundInProperties ps).map use ++ namesInPropertyDefaults ps)
    (identifiersInPatternProperties ps)
  | [] => .nil
  | ⟨_, value⟩ :: rest => by
    refine ((covers_pattern use huse value).append (covers_patternProperties use huse rest)).mono
      fun _ => ?_
    simp only [boundInProperties, namesInPropertyDefaults, List.map_append, List.mem_append]
    tauto

theorem covers_stmt : (s : Stmt) → Covers (namesInStmt s) (identifiersInStmt s)
  | .var _ decls => covers_declarators decls
  | .function ⟨name, params, body, arrow⟩ => by
    refine .append (fun x hx => ?_) (covers_function ⟨name, params, body, arrow⟩)
    simpa [NameUse.name] using hx
  | .ret value => covers_expr? value
  | .ifElse test consequent none => ((covers_expr test).append (covers_stmt consequent)).append .nil
  | .ifElse test consequent (some alternate) =>
    ((covers_expr test).append (covers_stmt consequent)).append (covers_stmt alternate)
  | .forLoop none test update body =>
    ((Covers.nil.append (covers_expr? test)).append (covers_expr? update)).append (covers_stmt body)
  | .forLoop (some init) test update body =>
    (((covers_init init).append (covers_expr? test)).append (covers_expr? update)).append
      (covers_stmt body)
  | .forEach _ _ pattern right body =>
    ((covers_pattern NameUse.binding (fun _ => rfl) pattern).append (covers_expr right)).append
      (covers_stmt body)
  | .whileLoop test body => (covers_expr test).append (covers_stmt body)
  | .block body => covers_stmts body
  | .expr value => covers_expr value
  | .breakLoop | .continueLoop | .empty => .nil

theorem covers_stmts : (ss : List Stmt) → Covers (namesInStmts ss) (identifiersInStmts ss)
  | [] => .nil
  | stmt :: rest => (covers_stmt stmt).append (covers_stmts rest)

theorem covers_declarators : (ds : List Declarator) →
    Covers (namesInDeclarators ds) (identifiersInDeclarators ds)
  | [] => .nil
  | ⟨id, init⟩ :: rest => by
    have h := ((covers_pattern NameUse.binding (fun _ => rfl) id).append (covers_expr? init)).append
      (covers_declarators rest)
    refine h.mono fun _ => ?_
    simp only [namesInDeclarators, List.mem_append]
    tauto

theorem covers_init : (i : ForInit) → Covers (namesInInit i) (identifiersInInit i)
  | .declare _ decls => covers_declarators decls
  | .expr value => covers_expr value
end

end IndicatorCompiler.Survey

namespace IndicatorCompiler.SlotForm

open Script Survey

/-! ## Names that are handed out for a unit -/

/-- The names that are handed out for the unit of a script, from scopes that know the names of its
body to the end of the walk through its normal form. -/
def HandsOutFor (program : Program) (body : List Stmt) (names : List String) : Prop :=
  ∃ s out w, entry program = .ok ⟨s.rootName, body⟩ ∧ survey program = .ok s ∧
    (sequence (visits s.body) []).run ⟨s.scopes, []⟩ = .ok (out, w) ∧
    HandsOut (knownScopes s.rootName (namesInStmts body) (contextNames s.rootName body)) names
    w.scopes

/-- Scopes that hand out temporaries hand out names. -/
def handsNames (root : String) (s₀ : Scopes) : NormalForm.TempInvariant root where
  Holds s := s.rootName = root ∧ ∃ names, HandsOut s₀ names s
  root _ h := h.1
  temp s h := by
    obtain ⟨hroot, names, hnames⟩ := h
    have hadd : HandsOut s.generateTemp.2 [] (s.generateTemp.2.addTemp s.generateTemp.1) :=
      .nothing rfl fun k => by cases k <;> rfl
    exact ⟨hroot, _, (hnames.trans (.name .temps s)).trans hadd⟩

/-- A slot form comes with the names that were handed out for it. -/
theorem exists_handsOutFor {program s unit} (hsurvey : survey program = .ok s)
    (hunit : slotUnit s.body s.scopes = .ok unit) :
    ∃ body names, entry program = .ok ⟨s.rootName, body⟩ ∧ HandsOutFor program body names := by
  obtain ⟨body, hentry, hnormal⟩ := survey_eq_ok hsurvey
  have hroot := knownScopes_rootName s.rootName (namesInStmts body) (contextNames s.rootName body)
  obtain ⟨⟨-, first, hfirst⟩, -⟩ := NormalForm.yields_normalStmts (handsNames _ _) body
    ⟨hroot, [], .nothing rfl fun _ => rfl⟩ hnormal
  unfold slotUnit at hunit
  cases hwalk : (sequence (visits s.body) []).run ⟨s.scopes, []⟩ with
  | error e => simp [hwalk, bind, Except.bind] at hunit
  | ok result =>
    have hsteady : false = true → everyStmt steady s.body = true := by simp
    obtain ⟨front, new, hstep⟩ := (traced_sequence hsteady hwalk).steps (survey_spec hsurvey).1
    obtain ⟨second, hsecond⟩ := hstep.handed.names
    exact ⟨body, _, hentry, s, result.1, result.2, hentry, hsurvey, hwalk, hfirst.trans hsecond⟩

/-- No name is handed out that a declaration, a loop or a parameter of the unit binds. -/
theorem HandsOutFor.not_bound {program body names} (h : HandsOutFor program body names) {x}
    (hx : x ∈ names) : .bound x ∉ identifiersInStmts body := by
  obtain ⟨s, out, w, -, -, -, hout⟩ := h
  obtain ⟨k, n, rfl, -, -, hfresh⟩ := hout.mem_iff.mp hx
  rw [knownScopes_reserved, List.mem_reverse] at hfresh
  exact fun hbound => hfresh (covers_stmts body _ hbound)

theorem HandsOutFor.spelling {program body names} (h : HandsOutFor program body names) {x}
    (hx : x ∈ names) : ∃ (k : Supply) (n : Nat), x = k.name n := by
  obtain ⟨s, out, w, -, -, -, hout⟩ := h
  obtain ⟨k, n, hname, -⟩ := hout.mem_iff.mp hx
  exact ⟨k, n, hname⟩

/-- Every identifier of the script that is spelled like a generated name is bound by a declaration,
a loop or a parameter in the body of the unit. -/
def Foreseen (program : Program) (body : List Stmt) : Prop :=
  ∀ (k : Supply) n, k.name n ∈ (identifiersInStmts program.body).map (·.name) →
    .bound (k.name n) ∈ identifiersInStmts body

/-- It is enough to look at the identifiers that start like generated names. -/
theorem foreseen_of_stems {program body}
    (h : ∀ o ∈ identifiersInStmts program.body, ∀ k ∈ [Supply.temps, .captures], k.stem.toList <+:
      o.name.toList → .bound o.name ∈ identifiersInStmts body) :
    Foreseen program body := by
  intro k n hoccurs
  obtain ⟨o, ho, hname⟩ := List.mem_map.mp hoccurs
  rw [← hname]
  refine h o ho k (by cases k <;> simp) ?_
  rw [hname, k.name_eq, String.toList_append]
  exact List.prefix_append _ _

/-- Temporaries and captures are spelled like no identifier of a script that is foreseen. -/
theorem slotUnit_hygienic {program : Program} {s : Surveyed} {unit : Expr} {body : List Stmt}
    (hentry : entry program = .ok ⟨s.rootName, body⟩) (hsurvey : survey program = .ok s)
    (hunit : slotUnit s.body s.scopes = .ok unit) (hforeseen : Foreseen program body) :
    ∃ names, HandsOutFor program body names ∧
      ∀ x ∈ names, x ∉ (identifiersInStmts program.body).map (·.name) := by
  obtain ⟨body', names, hentry', hnames⟩ := exists_handsOutFor hsurvey hunit
  obtain rfl : body = body' := by
    rw [hentry] at hentry'
    cases hentry'
    rfl
  refine ⟨names, hnames, fun x hx hoccurs => ?_⟩
  obtain ⟨k, n, rfl⟩ := hnames.spelling hx
  exact hnames.not_bound hx (hforeseen k n hoccurs)

/-- Names spelled like temporaries and captures, bound in all ways. -/
def foreseenNames : String :=
  "($) => \x7b let p0 = 1, [_tmp0, b] = f(p0); " ++
  "function p1(_tmp1 = 2) \x7b return ta.sma(p0, _tmp1); \x7d " ++
  "for (const p2 of b) \x7b [b] = p1(ta.ema(p2, 3)[1]); \x7d \x7d"

theorem foreseenNames_hygienic : ∃ program body, Program.ofSource foreseenNames = .ok program ∧
    Foreseen program body ∧ ∃ names, HandsOutFor program body names ∧
      ∀ x ∈ names, x ∉ (identifiersInStmts program.body).map (·.name) := by
  have hcheck : ((Program.ofSource foreseenNames).toOption.any fun program =>
      (entry program).toOption.any fun unit => (survey program).toOption.any fun s =>
        (slotUnit s.body s.scopes).toOption.any fun _ => decide (s.rootName = unit.rootName ∧
          ∀ o ∈ identifiersInStmts program.body, ∀ k ∈ [Supply.temps, .captures],
            k.stem.toList <+: o.name.toList → .bound o.name ∈ identifiersInStmts unit.body)) =
            true :=
    any_ofSource (toList_append_of (toList_append_of String.toList_ofList)) (by decide +kernel)
  obtain ⟨program, hprogram, hcheck⟩ := eq_ok_of_any hcheck
  obtain ⟨⟨root, body⟩, hentry, hcheck⟩ := eq_ok_of_any hcheck
  obtain ⟨s, hs, hcheck⟩ := eq_ok_of_any hcheck
  obtain ⟨unit, hunit, hcheck⟩ := eq_ok_of_any hcheck
  obtain ⟨rfl, hstems⟩ := of_decide_eq_true hcheck
  have hforeseen := foreseen_of_stems hstems
  exact ⟨program, body, hprogram, hforeseen, slotUnit_hygienic hentry hs hunit hforeseen⟩

/-! ## Clashes -/

/-- A name that is handed out for the source occurs in it. -/
def Clashes (source : String) : Prop :=
  ∃ program body names, Program.ofSource source = .ok program ∧ HandsOutFor program body names ∧
    ∃ x ∈ names, x ∈ (identifiersInStmts program.body).map (·.name)

theorem next_knownScopes (k : Supply) (root : String) (uses : List NameUse)
    (contextBound : List String) : k.next (knownScopes root uses contextBound) = 0 := by
  unfold knownScopes
  simp only
  rw [foldl_keeps Scopes.markContextBound k.next fun _ _ => by cases k <;> rfl,
    foldl_keeps Scopes.addUserFunction k.next fun _ _ => by cases k <;> rfl,
    foldl_keeps Scopes.reserve k.next fun _ _ => by cases k <;> rfl]
  cases k <;> rfl

/-- An identifier that the counters move past without avoiding it. -/
theorem clashes_of_passed {source} (k : Supply) (n : Nat)
    (h : ((Program.ofSource source).toOption.any fun program => (survey program).toOption.any
      fun s => ((sequence (visits s.body) []).run ⟨s.scopes, []⟩).toOption.any fun r =>
        decide (k.name n ∈ (identifiersInStmts program.body).map (·.name) ∧ n < k.next r.2.scopes ∧
          k.name n ∉ r.2.scopes.reserved)) = true) :
    Clashes source := by
  obtain ⟨program, hprogram, h⟩ := eq_ok_of_any h
  obtain ⟨s, hs, h⟩ := eq_ok_of_any h
  obtain ⟨⟨out, w⟩, hwalk, h⟩ := eq_ok_of_any h
  obtain ⟨hoccurs, hpassed, hfree⟩ := of_decide_eq_true h
  have hunit : slotUnit s.body s.scopes =
      .ok (.function ⟨none, [.ident contextName], .block out, true⟩) := by
    rw [slotUnit, hwalk]
    rfl
  obtain ⟨body, names, hentry, hnames⟩ := exists_handsOutFor hs hunit
  refine ⟨program, body, names, hprogram, hnames, k.name n, ?_, hoccurs⟩
  obtain ⟨s', out', w', -, hs', hwalk', hout⟩ := hnames
  obtain rfl : s = s' := Except.ok.inj (hs.symm.trans hs')
  obtain rfl : w = w' := congrArg Prod.snd (Except.ok.inj (hwalk.symm.trans hwalk'))
  refine hout.mem_iff.mpr ⟨k, n, rfl, ?_, hpassed, hout.reserved ▸ hfree⟩
  rw [next_knownScopes]
  exact Nat.zero_le n

/-- Names that are only used, names of function expressions and the parameter of the unit are not
avoided, neither by captures nor by temporaries. -/
theorem clashes_not_bound : Clashes "($) => \x7b let x = ta.sma(close, 14) + p0; \x7d" ∧
    Clashes "($) => \x7b let x = [function p0(a) \x7b return ta.sma(a, 14) || p0(a); \x7d]; \x7d" ∧
    Clashes "(p0) => \x7b let x = ta.sma(close, 14); \x7d" ∧
    Clashes "($) => \x7b let [a, b] = f(_tmp0); \x7d" ∧
    Clashes "($) => \x7b let x = [function _tmp0() \x7b let [a] = f(_tmp0); \x7d]; \x7d" ∧
    Clashes "(_tmp0) => \x7b let [a, b] = f(close); \x7d" := by
  refine ⟨?_, ?_, ?_, ?_, ?_, ?_⟩
  iterate 3
    · exact clashes_of_passed .captures 0 (any_ofSource String.toList_ofList (by decide +kernel))
  iterate 3
    · exact clashes_of_passed .temps 0 (any_ofSource String.toList_ofList (by decide +kernel))

end IndicatorCompiler.SlotForm
