import IndicatorCompiler.Proofs.CallSites
import IndicatorCompiler.Script.Syntax.Outline

/-!
# Equality goes through the context

Wherever a walk builds an expression, equality is compared by the context, so no operator of
equality is left there.  A slot form keeps some patterns as they stand, with the defaults in them:
those of parameters, but for a default of the whole parameter, those of loops, and those of
declarations that take names off the context.  Only there an operator of equality can stay.

What a tree holds anywhere is asked of its outline, which shows all its nodes.
-/

open Bool (and_eq_true)

namespace IndicatorCompiler.Text.Outline

mutual
/-- No node of the outline is of the kind. -/
@[simp] def lacks (kind : Outline → Bool) : Outline → Bool
  | .leaf text => !kind (.leaf text)
  | .record name fields => !kind (.record name fields) && fieldsLack kind fields
  | .tuple name items => !kind (.tuple name items) && itemsLack kind items
  | .list items => !kind (.list items) && itemsLack kind items

/-- No node of outlines is of the kind. -/
@[simp] def itemsLack (kind : Outline → Bool) : List Outline → Bool
  | [] => true
  | item :: rest => item.lacks kind && itemsLack kind rest

/-- No node of labelled outlines is of the kind. -/
@[simp] def fieldsLack (kind : Outline → Bool) : List OutlineField → Bool
  | [] => true
  | ⟨_, value⟩ :: rest => value.lacks kind && fieldsLack kind rest
end

end IndicatorCompiler.Text.Outline

namespace IndicatorCompiler.SlotForm

open Script
open Text (Outline)
open Text.Outline (itemsLack)

attribute [local simp] Expr.outline Stmt.outline

/-- The node of an operator of equality. -/
@[simp] def comparesEqual : Outline → Bool
  | .record node fields => node == "Binary" && fields.head?.any fun
    | ⟨_, .leaf op⟩ => [BinaryOp.eq, .notEq, .strictEq, .strictNotEq].any (·.label == op)
    | _ => false
  | _ => false

/-- No operator of equality stands in the tree. -/
abbrev eqFree (tree : Outline) : Bool := tree.lacks comparesEqual

/-- None stands in the trees. -/
abbrev eqFreeAll (trees : List Outline) : Bool := itemsLack comparesEqual trees

/-- None stands in what is kept of parameters. -/
def keepsParams (ps : List Pattern) : Bool := ps.all fun
  | .withDefault target _ => eqFree target.outline
  | pattern => eqFree pattern.outline

/-- None stands in the patterns of bindings. -/
def keepsIds (ds : List Declarator) : Bool := ds.all fun d => eqFree d.id.outline

/-- None stands in the patterns of the bindings in front of a loop. -/
def keepsInit : Option ForInit → Bool
  | some (.declare _ decls) => keepsIds decls
  | _ => true

/-- None stands in the patterns that a slot form keeps. -/
def keptFree : Check where
  function f := keepsParams f.params
  stmt
    | .var _ decls => keepsIds decls
    | .forLoop init _ _ _ => keepsInit init
    | .forEach _ _ pattern _ _ => eqFree pattern.outline
    | _ => true

/-! ## What a walk builds -/

variable {w w' w₁ w₂ : Walk} {a b : Bool}

theorem eqFree_stmts_append (first rest : List Stmt) : eqFreeAll (stmtOutlines (first ++ rest)) =
      (eqFreeAll (stmtOutlines first) && eqFreeAll (stmtOutlines rest)) := by
  induction first with
  | nil => rfl
  | cons stmt first ih => simp [stmtOutlines, ih, Bool.and_assoc]

theorem eqFree_exprs_append (first rest : List Expr) : eqFreeAll (exprOutlines (first ++ rest)) =
      (eqFreeAll (exprOutlines first) && eqFreeAll (exprOutlines rest)) := by
  induction first with
  | nil => rfl
  | cons e first ih => simp [exprOutlines, ih, Bool.and_assoc]

/-- What was hoisted so far is free of operators of equality. -/
def Tidy (w : Walk) : Prop := ∀ stmts ∈ w.hoisted, eqFreeAll (stmtOutlines stmts) = true

/-- The walk keeps what is hoisted free, and what it builds passes. -/
def Builds (w w' : Walk) (passes : Bool) : Prop := Tidy w → Tidy w' ∧ passes = true

namespace Builds

theorem same (h : a = true) : Builds w w a := fun hw => ⟨hw, h⟩

theorem and (h : Builds w w₁ a) (h' : Builds w₁ w₂ b) : Builds w w₂ (a && b) := by
  intro hw
  obtain ⟨hw₁, ha⟩ := h hw
  obtain ⟨hw₂, hb⟩ := h' hw₁
  exact ⟨hw₂, by rw [ha, hb]; rfl⟩

theorem mono (h : Builds w w' a) (himp : a = true → b = true) : Builds w w' b :=
  fun hw => (h hw).imp_right himp

theorem hoist {stmt s} (h : Builds w w₁ a) (hhoists : Hoists stmt { w₁ with scopes := s } w₂)
    (hstmt : a = true → eqFree stmt.outline = true) : Builds w w₂ true := by
  intro hw
  obtain ⟨hw₁, ha⟩ := h hw
  obtain ⟨first, rest, hcons, rfl⟩ := hhoists
  have hcons : w₁.hoisted = first :: rest := hcons
  refine ⟨fun stmts hmem => ?_, rfl⟩
  rcases List.mem_cons.mp hmem with rfl | hmem
  · simp [eqFree_stmts_append, hw₁ first (by simp [hcons]), stmtOutlines, hstmt ha]
  · exact hw₁ stmts (by simp [hcons, hmem])

end Builds

theorem Tidy.taken (h : Tidy w) : eqFreeAll (stmtOutlines (w.hoisted.headD [])) = true ∧
    Tidy w.taken := by
  unfold Tidy Walk.taken at *
  cases hw : w.hoisted with
  | nil => simp [stmtOutlines]
  | cons first rest =>
    rw [hw] at h
    refine ⟨h first (by simp), fun stmts hmem => ?_⟩
    rcases List.mem_cons.mp hmem with rfl | hmem
    · rfl
    · exact h stmts (by simp [hmem])

/-! ## Forms -/

@[simp] theorem eqFree_lit (value : Literal) : eqFree value.outline = true := by
  cases value <;> simp [Literal.outline, outlineText, Outline.ofBool]

theorem eqFree_nameAt (x : String) (r : Resolution) (position : Position) :
    eqFree (Operand.nameAt x r position).outline = true := by
  cases r <;> cases position <;>
    simp [Operand.nameAt, readNow, readAt, contextCall, slotRef, Expr.outline,
    exprOutlines, outlineText, Expr.nat, Expr.num]

theorem eqFree_combined (op : BinaryOp) (l r : Expr) :
    eqFree (Operand.combined op l r).outline = (eqFree l.outline && eqFree r.outline) := by
  cases op <;>
    simp [Operand.combined, Expr.not, Expr.outline, exprOutlines, outlineText, BinaryOp.label,
    UnaryOp.label]

theorem eqFree_contextCall (method : String) (args : List Expr) :
    eqFree (contextCall method args).outline = eqFreeAll (exprOutlines args) := by
  simp [contextCall, Expr.outline, outlineText]

theorem eqFree_slotRef (kind : VarKind) (renamed : String) :
    eqFree (slotRef kind renamed).outline = true := by
  simp [slotRef, Expr.outline, outlineText]

theorem eqFree_identity (s : Scopes) (id : String) : eqFree (identity s id).outline = true := by
  unfold identity
  split <;> simp [contextCall, Expr.outline, exprOutlines, outlineText, Expr.str, BinaryOp.label]

theorem eqFree_readAt {e i} (h : (eqFree i.outline && eqFree e.outline) = true) :
    eqFree (readAt e i).outline = true := by
  simp_all [readAt, eqFree_contextCall, exprOutlines]

theorem eqFree_initSlot (method : String) (kind : VarKind) (renamed : String) (e : Expr) :
    eqFree (initSlot method (slotRef kind renamed) e).outline = eqFree e.outline := by
  simp [initSlot, Stmt.outline, Expr.outline, eqFree_contextCall, exprOutlines, eqFree_slotRef]

theorem eqFree_set {op} (hop : op ∈ [BinaryOp.add, .sub, .mul, .div, .mod]) (kind : VarKind)
    (renamed : String) {e} (h : eqFree e.outline = true) :
    eqFree (contextCall "set" [slotRef kind renamed,
      .binary op (readNow (slotRef kind renamed)) e]).outline = true := by
  simp only [List.mem_cons, List.not_mem_nil, or_false] at hop
  have hread : eqFree (readNow (slotRef kind renamed)).outline = true :=
    eqFree_readAt (by simp [eqFree_slotRef, Expr.nat, Expr.num, Expr.outline])
  rcases hop with rfl | rfl | rfl | rfl | rfl <;>
    simp [eqFree_contextCall, exprOutlines, Expr.outline, eqFree_slotRef, hread, h, BinaryOp.label]

theorem eqFree_writesExpr (es : List Expr) :
    eqFree (writesExpr es).outline = eqFreeAll (exprOutlines es) := by
  unfold writesExpr
  split <;> simp [exprOutlines, Expr.outline]

theorem eqFree_alternateStmt (stmts : List Stmt) :
    eqFree (alternateStmt stmts).outline = eqFreeAll (stmtOutlines stmts) := by
  unfold alternateStmt
  split <;> simp [stmtOutlines, Stmt.outline]

/-- The outline of what a loop starts with. -/
def initOutline? : Option ForInit → Outline
  | none => .optional none
  | some init => .optional (some init.outline)

theorem eqFree_forLoop (init : Option ForInit) (test update : Option Expr) (stmts : List Stmt) :
    eqFreeAll (stmtOutlines [.forLoop init test update (.block stmts)]) =
      (eqFree (initOutline? init) && eqFree (exprOutline? test) && eqFree (exprOutline? update) &&
        eqFreeAll (stmtOutlines stmts)) := by
  cases init <;> simp [stmtOutlines, Stmt.outline, initOutline?, Bool.and_assoc]

/-! ## All slot forms -/

/-- The part is built without operators of equality. -/
abbrev Form.Free (w w' : Walk) : Form → Prop
  | .expr _ _ out => Builds w w' (eqFree out.outline)
  | .exprs _ _ outs | .captures _ _ outs => Builds w w' (eqFreeAll (exprOutlines outs))
  | .expr? _ out => Builds w w' (eqFree (exprOutline? out))
  | .properties _ outs => Builds w w' (eqFreeAll (propertyOutlines outs))
  | .key _ out => Builds w w' (eqFree out.outline)
  | .source _ out lookback => Builds w w' (eqFree lookback.outline && eqFree out.outline)
  | .function _ _ out => Builds w w' (eqFree out.outline)
  | .params ps outs => keepsParams ps = true → Builds w w' (eqFreeAll (patternOutlines outs))
  | .stmt _ outs | .stmts _ outs | .block _ outs | .scope _ _ outs =>
    Builds w w' (eqFreeAll (stmtOutlines outs))
  | .declarators _ ds outs => keepsIds ds = true → Builds w w' (eqFreeAll (stmtOutlines outs))
  | .declarator _ d out => eqFree d.id.outline = true → Builds w w' (eqFree out.outline)
  | .init? init out => keepsInit init = true → Builds w w' (eqFree (initOutline? out))
  | .bindings ds outs => keepsIds ds = true → Builds w w' (eqFreeAll (declaratorOutlines outs))

theorem free {form w w'} (h : Formed form w w') (hs : form.every keptFree = true) :
    form.Free w w' := by
  induction h with
    try simp only [Form.every, Expr.every, everyExpr, everyExpr?, everyProperty, PropertyKey.every,
      Function.every, everyPattern, Pattern.every, everyDeclarator, everyStmt, every_forLoop,
      and_eq_true] at hs
  | ident position x => exact .same (eqFree_nameAt x _ position)
  | lit => exact .same (by simp [Expr.outline])
  | array _ ih | sequence _ ih | object _ ih | function _ ih | unary _ _ ih | spread _ ih
  | update _ _ _ ih | member _ _ ih =>
    exact (ih hs).mono (by simp [Expr.outline, outlineText, Outline.ofBool])
  | binary op _ _ ihl ihr => exact ((ihl hs.1).and (ihr hs.2)).mono (by simp [eqFree_combined])
  | conditional _ _ _ iht ihc iha =>
    exact (((iht hs.1.1).and (ihc hs.1.2)).and (iha hs.2)).mono fun h => by simp_all [Expr.outline]
  | new _ _ ihf ih | call _ _ _ _ ihf ih | assignMember _ _ _ _ ihf ih =>
    exact ((ihf hs.1).and (ih hs.2)).mono (by simp [Expr.outline])
  | key hi _ ih =>
    refine (ih hs.1).mono fun hout => ?_
    unfold Expr.isString at hi
    split at hi <;> simp_all [Expr.outline]
  | element _ _ _ ihi ih => exact ((ihi hs.2).and (ih hs.1)).mono (by simp_all [Expr.outline])
  | history _ _ _ ihi =>
    exact (ihi hs.2).mono fun hi => eqFree_readAt (by rw [hi, eqFree_nameAt]; rfl)
  | rooted _ _ _ _ _ _ ihi ih => exact ((ihi hs.2).and (ih hs.1)).mono eqFree_readAt
  | series _ _ _ _ _ hhoist ihi ih =>
    exact ((ihi hs.2).and ((ih hs.1).hoist hhoist (by simp [eqFree_initSlot]))).mono
      fun h => eqFree_readAt (by rwa [eqFree_slotRef])
  | userCall _ _ ih =>
    exact Builds.mono (ih hs.2) (by
      simp [eqFree_contextCall, exprOutlines, eqFree_identity, Expr.outline, outlineText])
  | libraryCall _ _ _ ihf ih =>
    exact Builds.mono ((ihf hs.1).and (ih hs.2)) (by
      simp [Expr.outline, eqFree_exprs_append, exprOutlines, eqFree_identity])
  | setSlot op _ _ ih =>
    refine (ih hs.2).mono fun h => ?_
    cases op with
    | assign => simp [AssignOp.arithmetic?, eqFree_contextCall, exprOutlines, eqFree_slotRef, h]
    | _ => exact eqFree_set (by simp) _ _ h
  | assign _ _ _ _ ih => exact (ih hs.2).mono (by simp [Expr.outline, outlineText])
  | destructure _ hhoist _ hparts _ ih ihs =>
    have hfirst := (ih hs.2).hoist hhoist (by
      simp [Stmt.outline, declaratorOutlines, Pattern.outline, exprOutline?, Outline.optional,
        outlineText])
    exact (hfirst.and (ihs (every_parts hparts rfl hs.1))).mono (by simp [eqFree_writesExpr])
  | updateSlot op => exact .same (eqFree_set (by cases op <;> simp [updateArithmetic]) _ _
      (by simp [Expr.nat, Expr.num, Expr.outline]))
  | noExprs | noExpr | noProperties | noCaptures | breakLoop | continueLoop | empty | noStmts =>
    exact .same rfl
  | noParams | noDeclarators | noInit | noBindings => exact fun _ => .same rfl
  | moreExprs _ _ ih ihs | captureValue _ _ _ ih ihs => exact (ih hs.1).and (ihs hs.2)
  | sourceBack _ _ ihi ih => exact (ihi hs.2).and (ih rfl)
  | someExpr _ ih => exact (ih hs).mono (by simp [exprOutline?, Outline.optional])
  | moreProperties _ _ _ ihkey ih ihs =>
    exact (((ihkey hs.1.1).and (ih hs.1.2)).and (ihs hs.2)).mono
      (by simp [propertyOutlines, Outline.ofBool])
  | keyName | keyStr => exact .same (by simp [PropertyKey.outline, outlineText])
  | keyComputed _ ih => exact (ih hs).mono (by simp [PropertyKey.outline])
  | sourceNow _ ih => exact (ih hs).mono (by simp [Expr.undefined, Expr.outline, outlineText])
  | capture _ _ hhoist _ ih ihs =>
    have hfirst := (ih hs.1).hoist hhoist (by
      simp_all [Stmt.outline, declaratorOutlines, Pattern.outline, exprOutline?, Outline.optional,
        outlineText, Expr.outline, exprOutlines, eqFree_identity])
    exact (hfirst.and (ihs hs.2)).mono (by simp [exprOutlines, Expr.outline, outlineText])
  | @functionParts _ name _ _ _ _ _ _ _ _ _ _ ihparams ih =>
    have hname : eqFree (Outline.optional (name.map outlineText)) = true := by cases name <;> rfl
    exact Builds.mono ((ihparams hs.1.2 hs.1.1).and (ih (every_bodyStmts (fun _ => rfl) hs.2))) (by
      simp_all [Function.outline, FunctionBody.outline, Outline.ofBool])
  | @plainParam p _ _ _ _ hplain _ ih =>
    intro hkept
    rw [keepsParams, List.all_cons, and_eq_true] at hkept
    have hp : eqFree p.outline = true := by
      cases p with
      | withDefault target value => exact absurd rfl (hplain target value)
      | _ => exact hkept.1
    exact (ih hs.2 hkept.2).mono (by simp_all [patternOutlines])
  | defaultParam _ _ ih ihs =>
    intro hkept
    rw [keepsParams, List.all_cons, and_eq_true] at hkept
    have hp := hkept.1
    exact ((ih hs.1.2).and (ihs hs.2 hkept.2)).mono (by simp_all [patternOutlines, Pattern.outline])
  | var _ ih =>
    simp only [Stmt.every, and_eq_true] at hs
    exact ih hs.2 hs.1
  | functionStmt _ ih | ret _ ih | blockStmt _ ih | exprStmt _ ih =>
    simp only [Stmt.every, and_eq_true] at hs
    exact (ih hs.2).mono (by simp [stmtOutlines, Stmt.outline])
  | retRounded _ _ ih =>
    simp only [Stmt.every, everyExpr?, and_eq_true] at hs
    exact (ih hs.2).mono (by
      simp [stmtOutlines, Stmt.outline, exprOutline?, Outline.optional, eqFree_contextCall,
        exprOutlines])
  | ifThen _ _ ih ihbody =>
    simp only [Stmt.every, and_eq_true] at hs
    exact ((ih hs.1.1.2).and (ihbody (every_asList hs.1.2))).mono
      (by simp [stmtOutlines, Stmt.outline, Outline.optional])
  | ifElse _ _ _ ih ihbody ihother =>
    simp only [Stmt.every, and_eq_true] at hs
    exact (((ih hs.1.1.2).and (ihbody (every_asList hs.1.2))).and
      (ihother (every_asList hs.2))).mono
      fun h => by simp_all [stmtOutlines, Stmt.outline, Outline.optional, eqFree_alternateStmt]
  | forLoop _ _ _ _ ihinit ihtest ihupdate ih =>
    exact ((((ihinit hs.1.1.1.2 hs.1.1.1.1).and (ihtest hs.1.1.2)).and (ihupdate hs.1.2)).and
      (ih (every_asList hs.2))).mono fun h => (eqFree_forLoop ..).trans h
  | forEach each kind pattern _ _ ih ihbody =>
    simp only [Stmt.every, and_eq_true] at hs
    have hpattern : eqFree pattern.outline = true := hs.1.1.1
    have hkind : eqFree (Outline.optional (kind.map fun k => .leaf k.label)) = true := by
      cases kind <;> rfl
    exact ((ih hs.1.2).and (ihbody (every_asList hs.2))).mono
      (by simp_all [stmtOutlines, Stmt.outline])
  | whileLoop _ _ ih ihbody =>
    simp only [Stmt.every, and_eq_true] at hs
    exact ((ih hs.1.2).and (ihbody (every_asList hs.2))).mono (by simp [stmtOutlines, Stmt.outline])
  | moreStmts _ _ ih ihs =>
    intro hw
    obtain ⟨hw₁, hfirst⟩ := ih hs.1 hw
    obtain ⟨hfront, htaken⟩ := hw₁.taken
    obtain ⟨hw₂, hrest⟩ := ihs hs.2 htaken
    exact ⟨hw₂, by simp only [eqFree_stmts_append, hfront, hfirst, hrest, Bool.and_self]⟩
  | block _ ih =>
    intro hw
    obtain ⟨hw', hout⟩ := ih hs fun stmts hmem => (List.mem_cons.mp hmem).elim
      (fun hnil => hnil ▸ rfl) (hw stmts)
    exact ⟨fun stmts hmem => hw' stmts (List.mem_of_mem_tail hmem), hout⟩
  | scope _ ih => exact (ih hs :)
  | @moreDeclarators _ d _ _ _ _ _ _ _ _ ih ihs =>
    obtain ⟨id, init⟩ := d
    simp only [everyDeclarator, and_eq_true] at hs
    intro hkept
    rw [keepsIds, List.all_cons, and_eq_true] at hkept
    exact (ih hs.1.2 hkept.1).and (ihs hs.2 hkept.2)
  | takenOff _ _ _ ih | plain _ _ _ ih =>
    exact fun hid => Builds.mono (ih hs) (by simp_all [Stmt.outline, declaratorOutlines])
  | @slot _ _ _ out _ _ _ _ ih =>
    refine fun _ => ((ih hs).mono fun h => ?_ :)
    cases out <;>
      simp_all [eqFree_initSlot, Expr.undefined, Expr.outline, outlineText, exprOutline?,
      Outline.optional]
  | declareInit _ _ ih =>
    exact fun hkept =>
      (ih hs hkept).mono (by simp [initOutline?, ForInit.outline, Outline.optional])
  | exprInit _ ih =>
    exact fun _ => (ih hs).mono (by simp [initOutline?, ForInit.outline, Outline.optional])
  | moreBindings _ _ ih ihs =>
    intro hkept
    rw [keepsIds, List.all_cons, and_eq_true] at hkept
    have hid := hkept.1
    exact ((ih hs.1.2).and (ihs hs.2 hkept.2)).mono (by simp_all [declaratorOutlines])

/-- If no operator of equality stands in the patterns that are kept, then none stands anywhere in
the slot form of a unit. -/
theorem slotUnit_eqFree {body : List Stmt} {scopes : Scopes} {unit : Expr}
    (hunit : slotUnit body scopes = .ok unit) (hkept : everyStmt keptFree body = true) :
    eqFree unit.outline = true := by
  unfold slotUnit at hunit
  cases hrun : (sequence (visits body) []).run ⟨scopes, []⟩ with
  | error e => simp [hrun, bind, Except.bind] at hunit
  | ok result =>
    obtain ⟨out, w⟩ := result
    simp only [hrun, bind, Except.bind, pure, Except.pure, Except.ok.injEq] at hunit
    subst hunit
    obtain ⟨-, hout⟩ := free (slotBlock_sequence hrun) hkept (by simp [Tidy])
    simp_all [Expr.outline, Function.outline, FunctionBody.outline, patternOutlines,
      Pattern.outline, Outline.ofBool, Outline.optional, outlineText]

/-- All four operators: in defaults of parameters and of patterns, in heads of loops, in what is
captured, and in what is written through an index. -/
def comparisons : String :=
  "($) => \x7b let [x, y = 1 != x] = pt; function f(a = x == 1) \x7b return a !== y; \x7d " ++
  "for (let i = x === y; i == 1; i++) " ++
  "\x7b pt[x != i] = ta.sma(x == i ? f(y === 2) : close, 3)[1]; \x7d \x7d"

theorem comparisons_eqFree : ∃ s unit, Slotted comparisons s unit ∧
    everyStmt keptFree s.body = true ∧ eqFree unit.outline = true := by
  obtain ⟨s, unit, hslotted, hkept⟩ : ∃ s unit, Slotted comparisons s unit ∧
      everyStmt keptFree s.body = true := exists_slotted
    (any_ofSource (toList_append_of (toList_append_of String.toList_ofList)) (by decide +kernel))
  obtain ⟨program, -, -, hunit⟩ := id hslotted
  exact ⟨s, unit, hslotted, hkept, slotUnit_eqFree hunit hkept⟩

/-- A default inside of the pattern of a parameter keeps its operator; so do the patterns of loops,
and of declarations that take names off the context. -/
theorem keptDefaults_compare :
    (∃ s unit, Slotted "($) => \x7b function f([a = b == c]) \x7b return a; \x7d \x7d" s unit ∧
      eqFree unit.outline = false) ∧
    (∃ s unit, Slotted "($) => \x7b for (let [a = b != c] of d) \x7b \x7d \x7d" s unit ∧
      eqFree unit.outline = false) ∧
    ∃ s unit, Slotted "($) => \x7b let \x7b a = b === c \x7d = $.data; \x7d" s unit ∧
      eqFree unit.outline = false := by
  simp only [← Bool.not_eq_true']
  refine ⟨?_, ?_, ?_⟩ <;>
    exact exists_slotted (any_ofSource String.toList_ofList (by decide +kernel))

end IndicatorCompiler.SlotForm
