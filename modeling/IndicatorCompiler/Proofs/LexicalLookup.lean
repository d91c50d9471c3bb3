import IndicatorCompiler.Proofs.SlotHistory

/-!
# Lookup is lexical

What a name refers to after a run of operations, told by the run alone.  Each open scope binds a
name to what the last operation bound it to while that scope was innermost, and the innermost open
scope that binds the name counts.  A name that no open scope binds is a temporary, a handle or a
loop variable if some operation ever made it one.  The two names of the context are never looked up
in scopes.
-/

namespace IndicatorCompiler.Scopes

/-! ## Bindings by the operations that made them -/

/-- What the operation at place `i` of a run binds a name to in the scope that `opener` tells. -/
def boundAt? (root : String) (ops : List Operation) (name : String) (opener : Option Nat)
    (i : Nat) : Option Binding :=
  if (openers (ops.take i)).inner = opener then
    (ops[i]?.bind ((ofRoot root).perform (ops.take i)).binds?).bind fun p =>
      if p.1 = name then some p.2 else none
  else none

/-- What a run binds a name to in the scope that `opener` tells; the last operation counts. -/
def boundIn? (root : String) (ops : List Operation) (name : String) (opener : Option Nat) :
    Option Binding :=
  ((List.range ops.length).filterMap (boundAt? root ops name opener)).getLast?

/-- What a name is in the whole unit, if no open scope binds it. -/
def unitWide (ops : List Operation) (name : String) : Resolution :=
  if .addTemp name ∈ ops then .localTemp
  else if .markContextBound name ∈ ops then .contextBound
  else if .addLoopVariable name ∈ ops then .loop
  else .foreign

/-- What the innermost open scope that binds a name binds it to. -/
def innermost? (root : String) (ops : List Operation) (name : String) : Option Binding :=
  (openers ops).stack.findSome? (boundIn? root ops name)

/-- What a name refers to after a run, by its innermost binding. -/
def lexical (root : String) (ops : List Operation) (name : String) : Resolution :=
  match innermost? root ops name with
  | some binding => binding.resolution
  | none => unitWide ops name

/-! ## One more operation -/

section

variable {root : String} {ops : List Operation} {name : String} {opener : Option Nat}

theorem boundAt?_concat_of_lt {i} (hi : i < ops.length) (op : Operation) :
    boundAt? root (ops ++ [op]) name opener i = boundAt? root ops name opener i := by
  have htake : (ops ++ [op]).take i = ops.take i := List.take_append_of_le_length (Nat.le_of_lt hi)
  rw [boundAt?, boundAt?, htake, List.getElem?_append_left hi]

theorem boundAt?_concat_length (op : Operation) :
      boundAt? root (ops ++ [op]) name opener ops.length = if (openers ops).inner = opener then
        (((ofRoot root).perform ops).binds? op).bind fun p => if p.1 = name then some p.2 else none
      else none := by
  have htake : (ops ++ [op]).take ops.length = ops := List.take_left
  rw [boundAt?, htake, List.getElem?_concat_length, Option.bind_some]

/-- The last operation counts if it binds the name in the scope. -/
theorem boundIn?_concat (op : Operation) : boundIn? root (ops ++ [op]) name opener =
      (boundAt? root (ops ++ [op]) name opener ops.length).or (boundIn? root ops name opener) := by
  have hbefore : (List.range ops.length).filterMap (boundAt? root (ops ++ [op]) name opener) =
      (List.range ops.length).filterMap (boundAt? root ops name opener) :=
    List.filterMap_congr fun i hi => boundAt?_concat_of_lt (List.mem_range.mp hi) op
  rw [boundIn?, List.length_append, List.length_singleton, List.range_succ, List.filterMap_append,
    List.getLast?_append, hbefore, boundIn?]
  cases hlast : boundAt? root (ops ++ [op]) name opener ops.length <;> simp [hlast]

/-- An operation that binds nothing leaves all bindings. -/
theorem boundIn?_concat_of_none {op} (h : ((ofRoot root).perform ops).binds? op = none) :
    boundIn? root (ops ++ [op]) name opener = boundIn? root ops name opener := by
  rw [boundIn?_concat, boundAt?_concat_length, h]
  simp

/-- An operation binds in the innermost scope only. -/
theorem boundIn?_concat_of_ne (op : Operation) (h : (openers ops).inner ≠ opener) :
    boundIn? root (ops ++ [op]) name opener = boundIn? root ops name opener := by
  rw [boundIn?_concat, boundAt?_concat_length, if_neg h, Option.none_or]

/-- In the innermost scope the new binding hides an older one of the name. -/
theorem boundIn?_concat_of_some {op x binding}
    (h : ((ofRoot root).perform ops).binds? op = some (x, binding)) :
    boundIn? root (ops ++ [op]) name (openers ops).inner =
      if x = name then some binding else boundIn? root ops name (openers ops).inner := by
  rw [boundIn?_concat, boundAt?_concat_length, h, if_pos rfl, Option.bind_some]
  split <;> simp

end

/-! ## Scopes are told apart by their openers -/

/-- Every open scope was entered by an operation of the run, each by another one. -/
structure Distinct (ops : List Operation) : Prop where
  nodup : (openers ops).stack.Nodup
  entered : ∀ i, some i ∈ (openers ops).stack → i < ops.length

theorem Distinct.concat {ops} (h : Distinct ops) (op : Operation) : Distinct (ops ++ [op]) := by
  have hlength : (ops ++ [op]).length = ops.length + 1 := by simp
  have hkeep {stack : List (Option Nat)} (hsub : stack.Sublist (openers ops).stack) :
      stack.Nodup ∧ ∀ i, some i ∈ stack → i < ops.length + 1 :=
    ⟨h.nodup.sublist hsub, fun i hi => Nat.lt_succ_of_lt (h.entered i (hsub.subset hi))⟩
  suffices hstack : (openers (ops ++ [op])).stack.Nodup ∧
      ∀ i, some i ∈ (openers (ops ++ [op])).stack → i < ops.length + 1 from
    ⟨hstack.1, hlength ▸ hstack.2⟩
  rw [openers_concat, Openers.after]
  split
  · -- the new scope is told by the place of the operation
    have hnew : some ops.length ∉ (openers ops).stack :=
      fun hmem => Nat.lt_irrefl _ (h.entered _ hmem)
    refine ⟨List.nodup_cons.mpr ⟨hnew, h.nodup⟩, fun i hi => ?_⟩
    rcases List.mem_cons.mp hi with heq | hmem
    · obtain rfl := Option.some.inj heq
      exact Nat.lt_succ_self _
    · exact (hkeep (List.Sublist.refl _)).2 i hmem
  · split
    · split
      · exact hkeep (List.Sublist.refl _)
      · rename_i next more houter
        refine hkeep ?_
        rw [Openers.stack, Openers.stack, houter]
        exact List.sublist_cons_self _ _
    · exact hkeep (List.Sublist.refl _)

theorem distinct (ops : List Operation) : Distinct ops := by
  induction ops using List.reverseRecOn with
  | nil => exact ⟨List.nodup_cons.mpr ⟨List.not_mem_nil, .nil⟩, nofun⟩
  | append_singleton ops op ih => exact ih.concat op

/-! ## The bindings of open scopes -/

/-- The scope binds every name to what the run binds it to in the scope that the opener tells. -/
def BindsAs (root : String) (ops : List Operation) (opener : Option Nat) (scope : Scope) : Prop :=
  ∀ name, scope.lookup? name = boundIn? root ops name opener

/-- The open scopes bind what the run has bound in them. -/
def Agrees (root : String) (ops : List Operation) (s : Scopes) : Prop :=
  List.Forall₂ (BindsAs root ops) (openers ops).stack s.stack

/-- A scope that was just entered binds nothing, as the operations so far were made in other
scopes. -/
theorem boundIn?_length (root : String) (ops : List Operation) (name : String) :
    boundIn? root ops name (some ops.length) = none := by
  refine List.getLast?_eq_none_iff.mpr (List.filterMap_eq_nil_iff.mpr fun i hi => if_neg
    fun heq => ?_)
  have hmem : some ops.length ∈ (openers (ops.take i)).stack := heq ▸ List.mem_cons_self
  have hlt := (distinct (ops.take i)).entered _ hmem
  rw [List.length_take] at hlt
  omega

/-- The innermost scope gets a binding, or none. -/
theorem bindsAs_inner {root ops op scope} (h : BindsAs root ops (openers ops).inner scope) :
    BindsAs root (ops ++ [op]) (openers ops).inner { scope with
      bindings := (((ofRoot root).perform ops).binds? op).toList ++ scope.bindings } := by
  intro name
  cases hbinds : ((ofRoot root).perform ops).binds? op with
  | none => exact (h name).trans (boundIn?_concat_of_none hbinds).symm
  | some p =>
    obtain ⟨x, binding⟩ := p
    rw [boundIn?_concat_of_some hbinds, ← h name, Scope.lookup?, Scope.lookup?]
    by_cases hx : x = name
    · simp [hx]
    · simp [List.lookup_cons, hx, beq_eq_false_iff_ne.mpr (Ne.symm hx)]

theorem Agrees.apply {root ops} (op : Operation) (h : Agrees root ops ((ofRoot root).perform ops)) :
    Agrees root (ops ++ [op]) (((ofRoot root).perform ops).apply op) := by
  refine (effect_apply _ op).forall₂ h (fun opener scope hother hbinds name =>
    (hbinds name).trans ?_)
    (fun kind _ hnone name => ?_) fun hinner _ => bindsAs_inner hinner
  · rcases hother with hnone | hmem
    · exact (boundIn?_concat_of_none hnone).symm
    · -- the other scopes are told by other openers
      have hnodup := List.nodup_cons.mp (distinct ops).nodup
      exact (boundIn?_concat_of_ne op fun heq => hnodup.1 (heq ▸ hmem)).symm
  · rw [boundIn?_concat_of_none hnone, boundIn?_length]
    rfl

theorem agrees_perform (root : String) (ops : List Operation) :
    Agrees root ops ((ofRoot root).perform ops) := by
  induction ops using List.reverseRecOn with
  | nil => exact .cons (fun _ => rfl) .nil
  | append_singleton ops op ih =>
    rw [perform_append]
    exact ih.apply op

/-! ## Names of the whole unit -/

/-- What scopes know of names in the whole unit is what operations made them. -/
structure Knows (ops : List Operation) (s : Scopes) : Prop where
  temps : ∀ x, x ∈ s.temps ↔ .addTemp x ∈ ops
  contextBound : ∀ x, x ∈ s.contextBound ↔ .markContextBound x ∈ ops
  loopVars : ∀ x, x ∈ s.loopVars ↔ .addLoopVariable x ∈ ops

theorem Knows.apply {ops s} (h : Knows ops s) (op : Operation) :
    Knows (ops ++ [op]) (s.apply op) := by
  have hpop (t : Scopes) : t.pop.temps = t.temps ∧ t.pop.contextBound = t.contextBound ∧
      t.pop.loopVars = t.loopVars := by
    rw [pop_eq]
    exact ⟨rfl, rfl, rfl⟩
  have hvariable (x : String) (kind : Script.VarKind) : (s.addVariable x kind).2.temps = s.temps ∧
      (s.addVariable x kind).2.contextBound = s.contextBound ∧
      (s.addVariable x kind).2.loopVars = s.loopVars := by
    rw [addVariable_eq]
    exact ⟨rfl, rfl, rfl⟩
  cases op <;> constructor <;> intro x <;>
    simp [Scopes.apply, push, enterFunction, addSeriesTemp, addContextBound, markContextBound,
      addLoopVariable,
      addTemp, reserve, addUserFunction, generateParam, generateCall, generateTemp, bind, h.temps,
      h.contextBound,
      h.loopVars, exitFunction, hpop, hvariable, or_comm]

theorem knows_perform (root : String) (ops : List Operation) :
    Knows ops ((ofRoot root).perform ops) := by
  induction ops using List.reverseRecOn with
  | nil => exact ⟨by simp [perform, ofRoot], by simp [perform, ofRoot], by simp [perform, ofRoot]⟩
  | append_singleton ops op ih =>
    rw [perform_append]
    exact ih.apply op

/-! ## Lookup -/

theorem bindingIn?_eq_findSome? (name : String) (scopes : List Scope) :
    bindingIn? name scopes = scopes.findSome? (·.lookup? name) := by
  induction scopes with
  | nil => rfl
  | cons scope more ih =>
    rw [bindingIn?, ih, List.findSome?_cons]
    cases scope.lookup? name <;> rfl

theorem bindingIn?_perform (root : String) (ops : List Operation) (name : String) :
    bindingIn? name ((ofRoot root).perform ops).stack = innermost? root ops name := by
  rw [bindingIn?_eq_findSome?, innermost?]
  have hagrees := agrees_perform root ops
  rw [Agrees] at hagrees
  generalize (openers ops).stack = stack, ((ofRoot root).perform ops).stack = scopes at hagrees
  induction hagrees with
  | nil => rfl
  | cons hbinds _ ih => rw [List.findSome?_cons, List.findSome?_cons, hbinds name, ih]

theorem rootName_apply (s : Scopes) (op : Operation) : (s.apply op).rootName = s.rootName := by
  cases op with
  | pop => rw [Scopes.apply, pop_eq]
  | exitFunction => rw [Scopes.apply, exitFunction, pop_eq]
  | addVariable x kind => rw [Scopes.apply, addVariable_eq]
  | addSeriesTemp x => rw [Scopes.apply, addSeriesTemp, addVariable_eq]
  | _ => rfl

theorem rootName_perform (s : Scopes) (ops : List Operation) :
    (s.perform ops).rootName = s.rootName := by
  induction ops generalizing s with
  | nil => rfl
  | cons op ops ih => exact (ih (s.apply op)).trans (rootName_apply s op)

/-- After every run, the two names of the context are the context.  Every other name is what its
innermost binding makes it, and one without a binding is what the unit as a whole makes it. -/
theorem resolve_perform (root : String) (ops : List Operation) (name : String) :
    ((ofRoot root).perform ops).resolve name =
      if name = contextName ∨ name = root then .rootParam else lexical root ops name := by
  have hknows := knows_perform root ops
  have hroot : ((ofRoot root).perform ops).rootName = root := rootName_perform (ofRoot root) ops
  unfold resolve lexical
  rw [hroot, bindingIn?_perform]
  cases innermost? root ops name with
  | none => simp only [unitWide, hknows.temps, hknows.contextBound, hknows.loopVars]
  | some binding => rfl

/-- A variable under a name of the context is bound, and yet its name is the context. -/
theorem rootParam_hides_variable :
    innermost? "context" [.addVariable "context" .lexical] "context" =
        some (.slot "glb1_context" .lexical) ∧
      ((ofRoot "context").perform [.addVariable "context" .lexical]).resolve "context" =
        .rootParam ∧
      innermost? "context" [.enterFunction .user, .addContextBound "$"] "$" = some .context ∧
      ((ofRoot "context").perform [.enterFunction .user, .addContextBound "$"]).resolve "$" =
        .rootParam := by
  decide +kernel

end IndicatorCompiler.Scopes
