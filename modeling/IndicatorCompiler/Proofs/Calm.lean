import IndicatorCompiler.Proofs.SlotForms
import IndicatorCompiler.Proofs.TreeChecks

/-!
# Expressions that hoist nothing

A call of a stateful library hoists its arguments, a history of an expression is kept in a slot that
is initialised in front, and a destructuring assignment keeps its value in a constant.  A calm
expression has none of these, other than in the bodies of functions, which have lists of their own.
-/

namespace IndicatorCompiler.SlotForm

open Script
open Bool (and_eq_true and_eq_true_iff)

/-- A callee that belongs to a stateful library, unless a variable hides it. -/
def isLibraryCallee : Expr → Bool
  | .member base x => (Expr.member base x).rootIdent?.any statefulLibraries.contains
  | _ => false

theorem isLibraryCallee_of_statefulLibrary? {s callee library}
    (h : statefulLibrary? s callee = some library) : isLibraryCallee callee = true := by
  unfold statefulLibrary? at h
  split at h
  · obtain ⟨hroot, hlibrary⟩ := Option.filter_eq_some_iff.mp h
    rw [and_eq_true] at hlibrary
    simp only [isLibraryCallee, hroot, Option.any_some, hlibrary.1]
  · cases h

mutual
/-- The expression hoists nothing. -/
def calm : Expr → Bool
  | .ident _ | .lit _ => true
  | .array items => calmAll items
  | .object properties => calmProperties properties
  | .function f => calmFunction f
  | .unary _ arg => calm arg
  | .update _ _ arg => calmTarget arg
  | .binary _ left right => calm left && calm right
  | .assign _ target value => calmTarget target && calm value
  | .conditional test consequent alternate => calm test && calm consequent && calm alternate
  | .call callee args =>
    !(isLibraryCallee callee && args.any isSeriesArgument) && calm callee && calmAll args
  | .new callee args => calm callee && calmAll args
  | .member base _ => calm base
  | .index base i => calm base && calm i && (i.isString || base.ident?.isSome)
  | .sequence items => calmAll items
  | .spread arg => calm arg

/-- What is written hoists nothing. -/
def calmTarget : Expr → Bool
  | .ident _ => true
  | .member base _ => calm base
  | .index base i => calm base && calm i
  | _ => false

/-- The expressions hoist nothing. -/
def calmAll : List Expr → Bool
  | [] => true
  | e :: rest => calm e && calmAll rest

/-- The properties hoist nothing. -/
def calmProperties : List Property → Bool
  | [] => true
  | ⟨.computed key, value, _⟩ :: rest => calm key && calm value && calmProperties rest
  | ⟨_, value, _⟩ :: rest => calm value && calmProperties rest

/-- The defaults of the parameters hoist nothing. -/
def calmFunction : Function → Bool
  | ⟨_, params, _, _⟩ => calmParams params

/-- The defaults of parameters hoist nothing. -/
def calmParams : List Pattern → Bool
  | [] => true
  | .withDefault _ value :: rest => calm value && calmParams rest
  | _ :: rest => calmParams rest
end

/-- An expression that may be missing hoists nothing. -/
def calm? (e : Option Expr) : Bool := e.all calm

/-- Nothing is hoisted out of a function or out of what a loop evaluates again. -/
def steady : Check where
  function := calmFunction
  stmt
    | .forLoop _ test update _ => calm? test && calm? update
    | .whileLoop test _ => calm test
    | _ => true

/-- What is walked at the position hoists nothing. -/
def calmAt : Position → Expr → Bool
  | .target, e => calmTarget e
  | _, e => calm e

/-- What is written hoists nothing where it is read, unless it is an element. -/
theorem calm_of_calmAt {position e} (h : calmAt position e = true)
    (hindex : ∀ base i, e ≠ .index base i) : calm e = true := by
  cases position with
  | target =>
    cases e with
    | ident x => rfl
    | member base x => exact h
    | index base i => exact absurd rfl (hindex base i)
    | _ => cases h
  | _ => exact h

theorem calmAt_of_ne {position} (h : position ≠ .target) (e : Expr) :
    calmAt position e = calm e := by
  cases position with
  | target => exact absurd rfl h
  | _ => rfl

/-! ## What is hoisted -/

/-- The walk adds to what is hoisted in front of the current statement alone, and if it is still it
adds nothing. -/
def Grows (still : Prop) (w w' : Walk) : Prop :=
  ∃ front, w'.hoisted = w.hoisted.modifyHead (· ++ front) ∧ (still → front = [])

namespace Grows

variable {still still' still'' : Prop} {w w' w'' : Walk}

theorem of_eq (h : w'.hoisted = w.hoisted) : Grows still w w' :=
  ⟨[], by rw [h]; cases w.hoisted <;> simp, fun _ => rfl⟩

theorem refl (w : Walk) : Grows still w w := of_eq rfl

theorem mono (h : Grows still w w') (hstill : still' → still) : Grows still' w w' := by
  obtain ⟨front, hfront, hnil⟩ := h
  exact ⟨front, hfront, fun h => hnil (hstill h)⟩

theorem trans (h : Grows still w w') (h' : Grows still' w' w'')
    (hstill : still'' → still ∧ still') : Grows still'' w w'' := by
  obtain ⟨front, hfront, hnil⟩ := h
  obtain ⟨front', hfront', hnil'⟩ := h'
  refine ⟨front ++ front', ?_, fun h => ?_⟩
  · rw [hfront', hfront]
    cases w.hoisted <;> simp
  · rw [hnil (hstill h).1, hnil' (hstill h).2, List.append_nil]

theorem of_hoists {stmt s} (h : Hoists stmt { w with scopes := s } w') : Grows False w w' := by
  obtain ⟨first, rest, hhoisted, rfl⟩ := h
  exact ⟨[stmt], by simp [show w.hoisted = first :: rest from hhoisted], nofun⟩

theorem of_scopes {s} (h : Grows still { w with scopes := s } w') : Grows still w w' := h

theorem to_scopes (h : Grows still w w') (s : Scopes) : Grows still w { w' with scopes := s } := h

/-- Lists of statements hoist nothing in front of the statement that they are part of. -/
theorem before (h : Grows still w w') (heq : w''.hoisted = w'.hoisted) : Grows still w w'' :=
  h.trans (of_eq heq : Grows True w' w'') fun h => ⟨h, trivial⟩

theorem eq_of_still (h : Grows still w w') (hstill : still) : w'.hoisted = w.hoisted := by
  obtain ⟨front, hfront, hnil⟩ := h
  rw [hfront, hnil hstill]
  cases w.hoisted <;> simp

theorem tail_eq (h : Grows still w w') : w'.hoisted.tail = w.hoisted.tail := by
  obtain ⟨front, hfront, -⟩ := h
  rw [hfront]
  cases w.hoisted <;> rfl

end Grows

theorem Walk.taken_tail (w : Walk) : w.taken.hoisted.tail = w.hoisted.tail := by
  obtain ⟨scopes, hoisted⟩ := w
  cases hoisted <;> rfl

/-- The key hoists nothing. -/
def calmKey : PropertyKey → Bool
  | .computed key => calm key
  | _ => true

theorem calmProperties_cons {key value shorthand ps} :
    calmProperties (⟨key, value, shorthand⟩ :: ps) =
      (calmKey key && calm value && calmProperties ps) := by
  cases key <;> simp [calmProperties, calmKey]

theorem calmParams_cons_plain {p ps} (h : ∀ target value, p ≠ .withDefault target value) :
    calmParams (p :: ps) = calmParams ps := by
  cases p with
  | withDefault target value => exact absurd rfl (h target value)
  | _ => rfl

theorem grows_index {position e i w w₁ w₂} (hi : Grows (calm i = true) w w₁)
    (he : Grows (calm e = true) w₁ w₂) : Grows (calmAt position (.index e i) = true) w w₂ := by
  refine hi.trans he fun hc => ?_
  cases position <;> simp_all [calmAt, calmTarget, calm]

/-- Where a value is kept in a slot, the expression is not calm. -/
theorem calmAt_index_eq_false {position e i} (hposition : position ≠ .target) (he : e.ident? = none)
    (hi : i.isString = false) : calmAt position (.index e i) = false := by
  rw [calmAt_of_ne hposition, calm, he, hi]
  exact Bool.and_false _

/-- What the walk may hoist. -/
abbrev Form.Grows (w w' : Walk) : Form → Prop
  | .expr position e _ => SlotForm.Grows (calmAt position e = true) w w'
  | .exprs position es _ => (∀ e, position e ≠ .target) → SlotForm.Grows (calmAll es = true) w w'
  | .expr? e _ => SlotForm.Grows (calm? e = true) w w'
  | .properties ps _ => SlotForm.Grows (calmProperties ps = true) w w'
  | .key k _ => SlotForm.Grows (calmKey k = true) w w'
  | .captures _ es _ =>
    SlotForm.Grows (calmAll es = true ∧ ∀ e ∈ es, isSeriesArgument e = false) w w'
  | .function _ f _ => SlotForm.Grows (calmFunction f = true) w w'
  | .params ps _ => SlotForm.Grows (calmParams ps = true) w w'
  | .stmts _ _ => w'.hoisted.tail = w.hoisted.tail
  | .block _ _ | .scope _ _ _ => w'.hoisted = w.hoisted
  | _ => SlotForm.Grows False w w'

/-- What is calm hoists nothing, and lists of statements keep what is hoisted around them. -/
theorem grows {form w w'} (h : Formed form w w') : form.Grows w w' := by
  induction h with
  | ident | lit | updateSlot | noExprs | noExpr | noProperties | keyName | keyStr | noCaptures
  | noParams
  | breakLoop | continueLoop | empty | noDeclarators | noInit | noBindings =>
    first | exact .refl _ | exact fun _ => .refl _
  | array _ ih | sequence _ ih => exact (ih nofun).mono fun hc => (calm_of_calmAt hc nofun :)
  | object _ ih | function _ ih | unary _ _ ih | spread _ ih | member _ _ ih | update _ _ _ ih =>
    exact ih.mono fun hc => (calm_of_calmAt hc nofun :)
  | binary _ _ _ ihl ihr | assignMember _ _ _ _ ihl ihr =>
    exact ihl.trans ihr fun hc => and_eq_true_iff.mp (calm_of_calmAt hc nofun)
  | conditional _ _ _ iht ihc iha =>
    refine (iht.trans ihc id).trans iha fun hc => ?_
    have hcalm := calm_of_calmAt hc nofun
    rw [calm, and_eq_true, and_eq_true] at hcalm
    exact hcalm
  | new _ _ ihf ih =>
    exact ihf.trans (ih nofun) fun hc => and_eq_true_iff.mp (calm_of_calmAt hc nofun)
  | key _ _ ih => exact grows_index (.refl _) ih
  | element _ _ _ ihi ih | rooted _ _ _ _ _ _ ihi ih => exact grows_index ihi ih
  | history _ _ _ ih => exact grows_index ih (.refl _)
  | series hposition he hstring _ _ hhoist ihi ih =>
    exact ((ihi.trans ih id).trans (.of_hoists hhoist) id).mono fun hc =>
      absurd hc (by rw [calmAt_index_eq_false hposition he hstring]; exact Bool.false_ne_true)
  | userCall _ _ ih =>
    refine ((ih fun e => ?_).mono fun hc => ?_).to_scopes _
    · cases e <;> exact nofun
    · exact (and_eq_true_iff.mp (calm_of_calmAt hc nofun)).2
  | libraryCall hlibrary _ _ ihf ih =>
    refine (ihf.trans ih fun hc => ?_).to_scopes _
    have hcalm := calm_of_calmAt hc nofun
    rw [calm, isLibraryCallee_of_statefulLibrary? hlibrary] at hcalm
    simp only [Bool.true_and, and_eq_true, Bool.not_eq_true'] at hcalm
    exact ⟨hcalm.1.2, hcalm.2, by simpa using hcalm.1.1⟩
  | call _ _ _ _ ihf ih =>
    refine ihf.trans (ih nofun) fun hc => ?_
    have hcalm := calm_of_calmAt hc nofun
    rw [calm, and_eq_true, and_eq_true] at hcalm
    exact ⟨hcalm.1.2, hcalm.2⟩
  | setSlot _ _ _ ih | assign _ _ _ _ ih =>
    exact ih.mono fun hc => (and_eq_true_iff.mp (calm_of_calmAt hc nofun)).2
  | destructure _ hhoist hname hparts _ ih ihs =>
    refine ((ih.trans (.of_hoists hhoist) id).trans (ihs nofun) id).mono fun hc => ?_
    have hcalm := (and_eq_true_iff.mp (calm_of_calmAt hc nofun)).1
    cases hparts with
    | name whole x => cases hname
    | _ => cases hcalm
  | moreExprs _ _ ih ihs =>
    intro hposition
    refine ih.trans (ihs hposition) fun hc => ?_
    rw [calmAt_of_ne (hposition _)]
    exact and_eq_true_iff.mp hc
  | someExpr _ ih | keyComputed _ ih | var _ ih | declareInit _ _ ih => exact ih
  | moreProperties _ _ _ ihkey ih ihs =>
    refine (ihkey.trans ih id).trans ihs fun hc => ?_
    rw [calmProperties_cons, and_eq_true, and_eq_true] at hc
    exact hc
  | sourceNow _ ih | functionStmt _ ih | ret _ ih | retRounded _ _ ih | exprStmt _ ih
  | exprInit _ ih
  | takenOff _ _ _ ih | plain _ _ _ ih | slot _ _ _ ih => exact ih.mono False.elim
  | sourceBack _ _ ih ihs | moreDeclarators _ _ ih ihs | moreBindings _ _ ih ihs =>
    exact ih.trans ihs False.elim
  | capture hseries _ hhoist _ ih ihs =>
    exact ((ih.trans (.of_hoists hhoist) id).trans ihs id).mono fun hc =>
      absurd hseries (by simp [hc.2])
  | captureValue _ _ _ ih ihs =>
    refine ih.trans ihs fun hc => ?_
    have hcalm := and_eq_true_iff.mp hc.1
    exact ⟨hcalm.1, hcalm.2, fun e he => hc.2 e (List.mem_cons_of_mem _ he)⟩
  | functionParts _ _ ihparams ihbody => exact (ihparams.of_scopes.before ihbody).to_scopes _
  | plainParam hplain _ ih => exact ih.of_scopes.mono fun hc => calmParams_cons_plain hplain ▸ hc
  | defaultParam _ _ ih ihs => exact ih.trans ihs.of_scopes fun hc => and_eq_true_iff.mp hc
  | ifThen _ _ ih ihbody | whileLoop _ _ ih ihbody => exact (ih.mono False.elim).before ihbody
  | ifElse _ _ _ ih ihbody ihother => exact ((ih.mono False.elim).before ihbody).before ihother
  | forLoop _ _ _ _ ihinit ihtest ihupdate ihbody =>
    exact (((ihinit.of_scopes.trans ihtest False.elim).trans ihupdate False.elim).before
      ihbody).to_scopes _
  | forEach _ _ _ _ _ ih ihbody => exact ((ih.mono False.elim).before (ihbody :)).to_scopes _
  | blockStmt _ ih => exact .of_eq ih
  | noStmts => rfl
  | moreStmts _ _ ih ihs => exact ihs.trans ((Walk.taken_tail _).trans ih.tail_eq)
  | block _ ih | scope _ ih => exact ih

end IndicatorCompiler.SlotForm
