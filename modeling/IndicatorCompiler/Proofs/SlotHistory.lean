import IndicatorCompiler.Proofs.SlotName
import IndicatorCompiler.SlotForm.Walk
import Mathlib.Data.List.Forall2
import Mathlib.Data.List.Induction

/-!
# Slots are never shared

A run is a sequence of operations on scopes.  Which scope is innermost is told by the operation that
entered it.  The number of a scope counts the scopes of its kind that were entered before, so kind
and number tell the operation.  The name of a slot tells kind, number and variable, and so two
declarations that get the same slot declare the same variable in the same scope.
-/

namespace IndicatorCompiler.Scopes

open Script (VarKind)

/-! ## Runs -/

/-- What can be done to scopes. -/
inductive Operation where
  | push (kind : ScopeKind)
  | pop
  | enterFunction (frame : Frame)
  | exitFunction
  | addVariable (name : String) (kind : VarKind)
  | addSeriesTemp (name : String)
  | addContextBound (name : String)
  | markContextBound (name : String)
  | addLoopVariable (name : String)
  | addTemp (name : String)
  | reserve (name : String)
  | addUserFunction (name : String)
  | generateParam
  | generateCall (namespaceName : String)
  | generateTemp
  deriving DecidableEq, Repr

/-- The scopes after an operation. -/
def apply (s : Scopes) : Operation → Scopes
  | .push kind => s.push kind
  | .pop => s.pop
  | .enterFunction frame => s.enterFunction frame
  | .exitFunction => s.exitFunction
  | .addVariable name kind => (s.addVariable name kind).2
  | .addSeriesTemp name => (s.addSeriesTemp name).2
  | .addContextBound name => s.addContextBound name
  | .markContextBound name => s.markContextBound name
  | .addLoopVariable name => s.addLoopVariable name
  | .addTemp name => s.addTemp name
  | .reserve name => s.reserve name
  | .addUserFunction name => s.addUserFunction name
  | .generateParam => s.generateParam.2
  | .generateCall namespaceName => (s.generateCall namespaceName).2
  | .generateTemp => s.generateTemp.2

/-- The scopes after operations, from left to right. -/
def perform (s : Scopes) (ops : List Operation) : Scopes := ops.foldl apply s

theorem perform_append (s : Scopes) (ops more : List Operation) :
    s.perform (ops ++ more) = (s.perform ops).perform more :=
  List.foldl_append

/-- A declaration that makes a slot: what is declared, and the name of the slot. -/
structure Declared where
  name : String
  kind : VarKind
  renamed : String
  deriving DecidableEq, Repr

/-- The slot that an operation makes, if it makes one. -/
def slot? (s : Scopes) : Operation → Option Declared
  | .addVariable name kind =>
    if s.resolve name = .contextBound then none else some ⟨name, kind, (s.addVariable name kind).1⟩
  | .addSeriesTemp name =>
    if s.resolve name = .contextBound then none else some ⟨name, .lexical, (s.addSeriesTemp name).1⟩
  | _ => none

/-- The slot that the operation at a place of a run makes. -/
def slotAt? (root : String) (ops : List Operation) (i : Nat) : Option Declared :=
  ops[i]?.bind ((ofRoot root).perform (ops.take i)).slot?

/-! ## Scopes by the operations that entered them -/

namespace Operation

/-- The kind of the scope that the operation enters. -/
def entered? : Operation → Option ScopeKind
  | push kind => some kind
  | enterFunction _ => some .function
  | _ => none

/-- The operation leaves the innermost scope. -/
def leaves : Operation → Bool
  | pop | exitFunction => true
  | _ => false

end Operation

/-- The open scopes, each told by the place of the operation that entered it.  The outermost one was
open from the start. -/
structure Openers where
  inner : Option Nat
  outer : List (Option Nat)
  deriving DecidableEq, Repr

namespace Openers

/-- Nothing was entered yet. -/
def start : Openers := ⟨none, []⟩

/-- The open scopes after the operation at place `i`; the outermost one stays open. -/
def after (o : Openers) (i : Nat) (op : Operation) : Openers :=
  if op.entered?.isSome then ⟨some i, o.inner :: o.outer⟩
  else if op.leaves then
    match o.outer with
    | [] => o
    | next :: more => ⟨next, more⟩
  else o

end Openers

/-- The open scopes after operations. -/
def openers (ops : List Operation) : Openers := ops.zipIdx.foldl (fun o p => o.after p.2 p.1) .start

theorem openers_concat (ops : List Operation) (op : Operation) :
    openers (ops ++ [op]) = (openers ops).after ops.length op := by
  simp [openers, List.zipIdx_append]

/-- The scopes of a kind that operations entered, in order, by their places.  The first global scope
was there before. -/
def entries (kind : ScopeKind) (ops : List Operation) : List (Option Nat) :=
  (if kind = .global then [none] else []) ++
    (ops.zipIdx.filter fun p => p.1.entered? = some kind).map fun p => some p.2

theorem entries_concat (kind : ScopeKind) (ops : List Operation) (op : Operation) :
    entries kind (ops ++ [op]) =
      entries kind ops ++ if op.entered? = some kind then [some ops.length] else [] := by
  unfold entries
  by_cases h : op.entered? = some kind <;> simp [List.zipIdx_append, h]

/-! ## Kind and number tell the operation -/

/-- The number of the scope counts the entries of its kind up to its own. -/
def Opened (ops : List Operation) (opener : Option Nat) (scope : Scope) : Prop :=
  ∃ n, scope.number = n + 1 ∧ (entries scope.kind ops)[n]? = some opener

theorem Opened.concat {ops opener scope} (h : Opened ops opener scope) (op : Operation) :
    Opened (ops ++ [op]) opener scope := by
  obtain ⟨n, hnumber, hentry⟩ := h
  refine ⟨n, hnumber, ?_⟩
  rw [entries_concat, List.getElem?_append_left (List.getElem?_eq_some_iff.mp hentry).1]
  exact hentry

theorem Opened.append {ops opener scope} (h : Opened ops opener scope) (more : List Operation) :
    Opened (ops ++ more) opener scope := by
  induction more using List.reverseRecOn with
  | nil => simpa using h
  | append_singleton more op ih =>
    rw [← List.append_assoc]
    exact ih.concat op

/-! ## What an operation does -/

/-- What an operation binds in the innermost scope. -/
def binds? (s : Scopes) : Operation → Option (String × Binding)
  | .addContextBound name => some (name, .context)
  | .addLoopVariable name => some (name, .loop)
  | .addTemp name => some (name, .temp)
  | op => (s.slot? op).map fun d => (d.name, .slot d.renamed d.kind)

/-- An operation enters a scope, leaves one, or stays in the innermost one and makes at most one
binding there. -/
inductive Effect (s : Scopes) (op : Operation) (t : Scopes) : Prop where
  | enters {kind : ScopeKind} (henters : op.entered? = some kind) (hbinds : s.binds? op = none)
      (hstack : t.stack = ⟨kind, s.entered.count kind + 1, []⟩ :: s.stack)
      (hentered : t.entered = kind :: s.entered)
  | leaves (henters : op.entered? = none) (hleaves : op.leaves = true) (hbinds : s.binds? op = none)
      (hstack : t.stack = s.pop.stack) (hentered : t.entered = s.entered)
  | stays (henters : op.entered? = none) (hleaves : op.leaves = false)
      (hinner : t.inner = { s.inner with bindings := (s.binds? op).toList ++ s.inner.bindings })
      (houter : t.outer = s.outer) (hentered : t.entered = s.entered)

/-- Only which scopes are open changes. -/
theorem pop_eq (s : Scopes) : s.pop = { s with inner := s.pop.inner, outer := s.pop.outer } := by
  unfold pop
  split <;> rfl

theorem addVariable_eq (s : Scopes) (x : String) (kind : VarKind) :
    (s.addVariable x kind).2 = { s with inner := (s.addVariable x kind).2.inner } := by
  unfold addVariable
  split <;> rfl

theorem entered_pop (s : Scopes) : s.pop.entered = s.entered := by rw [pop_eq]

theorem stack_exitFunction (s : Scopes) : s.exitFunction.stack = s.pop.stack := by
  obtain ⟨rootName, inner, outer⟩ := s
  cases outer <;> rfl

theorem effect_addVariable {s op} (henters : op.entered? = none) (hleaves : op.leaves = false)
    {x kind}
    (hbinds : s.binds? op = (if s.resolve x = .contextBound then none
      else some ⟨x, kind, (s.addVariable x kind).1⟩ : Option Declared).map fun d =>
      (d.name, .slot d.renamed d.kind)) :
    Effect s op (s.addVariable x kind).2 := by
  by_cases hbound : s.resolve x = .contextBound
  · refine .stays henters hleaves ?_ ?_ ?_ <;> simp [addVariable, hbinds, hbound]
  · refine .stays henters hleaves ?_ ?_ ?_ <;> simp [addVariable, bind, hbinds, hbound]

theorem effect_apply (s : Scopes) (op : Operation) : Effect s op (s.apply op) := by
  cases op with
  | push | enterFunction => exact .enters rfl rfl rfl rfl
  | pop => exact .leaves rfl rfl rfl rfl (entered_pop s)
  | exitFunction => exact .leaves rfl rfl rfl (stack_exitFunction s) (entered_pop _)
  | addVariable | addSeriesTemp => exact effect_addVariable rfl rfl rfl
  | _ => exact .stays rfl rfl rfl rfl rfl

/-- The open scopes, the innermost first. -/
def Openers.stack (o : Openers) : List (Option Nat) := o.inner :: o.outer

/-- What is told of every open scope by its opener, after one more operation. -/
theorem Effect.forall₂ {ops s t op} {R R' : Option Nat → Scope → Prop} (heffect : Effect s op t)
    (h : List.Forall₂ R (openers ops).stack s.stack)
    (hkeep : ∀ opener scope, s.binds? op = none ∨ opener ∈ (openers ops).outer → R opener scope →
      R' opener scope)
    (hnew : ∀ kind, op.entered? = some kind → s.binds? op = none →
      R' (some ops.length) ⟨kind, s.entered.count kind + 1, []⟩)
    (hinner : R (openers ops).inner s.inner → op.entered? = none →
      R' (openers ops).inner
      { s.inner with bindings := (s.binds? op).toList ++ s.inner.bindings }) :
    List.Forall₂ R' (openers (ops ++ [op])).stack t.stack := by
  rw [openers_concat, Openers.after]
  cases heffect with
  | enters henters hbinds hstack _ =>
    rw [if_pos (by simp [henters]), hstack]
    exact .cons (hnew _ henters hbinds) (h.imp fun _ _ => hkeep _ _ (.inl hbinds))
  | leaves henters hleaves hbinds hstack _ =>
    have hall := h.imp fun opener scope => hkeep opener scope (.inl hbinds)
    obtain ⟨-, houter⟩ := List.forall₂_cons.mp hall
    rw [if_neg (by simp [henters]), if_pos hleaves, hstack, pop]
    cases hs : s.outer with
    | nil =>
      rw [hs, List.forall₂_nil_right_iff] at houter
      simp only [houter]
      exact hall
    | cons next more =>
      rw [hs] at houter
      obtain ⟨opener, rest, hopener, hrest, heq⟩ := List.forall₂_cons_right_iff.mp houter
      simp only [heq]
      exact .cons hopener hrest
  | stays henters hleaves hinner' houter _ =>
    obtain ⟨hfirst, hrest⟩ := List.forall₂_cons.mp h
    rw [if_neg (by simp [henters]), if_neg (by simp [hleaves]), stack, hinner', houter]
    refine .cons (hinner hfirst henters) ?_
    have hother : ∀ opener ∈ (openers ops).outer, ∀ scope, R opener scope → R' opener scope :=
      fun opener hopener scope => hkeep opener scope (.inr hopener)
    generalize (openers ops).outer = outer, s.outer = scopes at hrest hother ⊢
    induction hrest with
    | nil => exact .nil
    | cons hscope _ ih =>
      exact .cons (hother _ List.mem_cons_self _ hscope)
        (ih fun opener hopener => hother opener (List.mem_cons_of_mem _ hopener))

/-- The open scopes are those that the run has entered and not left. -/
structure Tracks (ops : List Operation) (s : Scopes) : Prop where
  count (kind : ScopeKind) : s.entered.count kind = (entries kind ops).length
  stack : List.Forall₂ (Opened ops) (openers ops).stack s.stack

theorem tracks_start (root : String) : Tracks [] (ofRoot root) where
  count kind := by cases kind <;> rfl
  stack := .cons ⟨0, rfl, rfl⟩ .nil

theorem Tracks.apply {ops s} (h : Tracks ops s) (op : Operation) :
    Tracks (ops ++ [op]) (s.apply op) := by
  have heffect := effect_apply s op
  refine ⟨fun kind => ?_, heffect.forall₂ h.stack (fun _ _ _ hopened => hopened.concat op)
    (fun kind henters _ => ⟨_, rfl, by simp [h.count, entries_concat, henters]⟩)
    fun hopened _ => hopened.concat op⟩
  cases heffect with
  | @enters entered henters _ _ hentered =>
    by_cases hkind : entered = kind <;> simp [hentered, h.count, entries_concat, henters, hkind]
  | leaves henters _ _ _ hentered
  | stays henters _ _ _ hentered => simp [hentered, h.count, entries_concat, henters]

theorem tracks_perform (root : String) (ops : List Operation) :
    Tracks ops ((ofRoot root).perform ops) := by
  induction ops using List.reverseRecOn with
  | nil => exact tracks_start root
  | append_singleton ops op ih =>
    rw [perform_append]
    exact ih.apply op

/-- Two scopes of one kind and number were entered by the same operation. -/
theorem opener_eq {ops a b s t} (hs : Opened ops a s) (ht : Opened ops b t)
    (hkind : s.kind = t.kind) (hnumber : s.number = t.number) : a = b := by
  obtain ⟨m, hm, ha⟩ := hs
  obtain ⟨n, hn, hb⟩ := ht
  obtain rfl : m = n := by omega
  rw [hkind, hb] at ha
  exact (Option.some.inj ha).symm

theorem opened_take (root : String) (ops : List Operation) (i : Nat) :
    Opened ops (openers (ops.take i)).inner ((ofRoot root).perform (ops.take i)).inner := by
  have hopened :=
    (List.forall₂_cons.mp (tracks_perform root (ops.take i)).stack).1.append (ops.drop i)
  rwa [List.take_append_drop] at hopened

/-! ## Slots -/

theorem renamed_of_slot? {s : Scopes} {op d} (h : s.slot? op = some d) :
    d.renamed = s.inner.slotName d.name := by
  have hvariable {name : String} {kind : VarKind} (hfree : ¬ s.resolve name = .contextBound) :
      (s.addVariable name kind).1 = s.inner.slotName name := by
    rw [addVariable, if_neg hfree]
  unfold slot? at h
  split at h
  iterate 2
    · obtain ⟨hfree, hd⟩ := Option.ite_none_left_eq_some.mp h
      cases hd
      exact hvariable hfree
  · cases h

theorem renamed_of_slotAt? {root : String} {ops i d} (h : slotAt? root ops i = some d) :
    d.renamed = ((ofRoot root).perform (ops.take i)).inner.slotName d.name := by
  obtain ⟨op, -, hslot⟩ := Option.bind_eq_some_iff.mp h
  exact renamed_of_slot? hslot

theorem slotRef_injective {k l r q} (h : SlotForm.slotRef k r = SlotForm.slotRef l q) : r = q :=
  (Script.Expr.member.inj h).2

/-- Two declarations of a run that make slots of one name declare the same variable, while the scope
that one and the same operation entered is innermost. -/
theorem eq_of_renamed_eq {root ops i j d e} (hd : slotAt? root ops i = some d)
    (he : slotAt? root ops j = some e) (h : d.renamed = e.renamed) :
    d.name = e.name ∧ (openers (ops.take i)).inner = (openers (ops.take j)).inner := by
  rw [renamed_of_slotAt? hd, renamed_of_slotAt? he] at h
  obtain ⟨hkind, hnumber, hname⟩ := Scope.slotName_inj h
  exact ⟨hname, opener_eq (opened_take root ops i) (opened_take root ops j) hkind hnumber⟩

end IndicatorCompiler.Scopes
