import IndicatorCompiler.Proofs.FreshNames
import IndicatorCompiler.Proofs.LexicalLookup

/-!
# Runs of operations on scopes

Two laws of runs that start anywhere.  A run that leaves whatever it enters, and declares nothing
outside of that, gives back the open scopes and the function bodies around them.  A generated name
is free when it is handed out, and no generator hands it out again.
-/

namespace IndicatorCompiler.Scopes

/-! ## Pairs of entering and leaving -/

/-- What is entered and has to be left. -/
inductive Pair where
  | scope | function
  deriving DecidableEq, Repr

/-- The pairs that are open after an operation.  Only the last one that was opened can be closed,
and declarations are made inside a pair. -/
def Operation.pairs? (pairs : List Pair) : Operation → Option (List Pair)
  | push _ => some (.scope :: pairs)
  | enterFunction _ => some (.function :: pairs)
  | pop => if pairs.head? = some .scope then some pairs.tail else none
  | exitFunction => if pairs.head? = some .function then some pairs.tail else none
  | addVariable _ _ | addSeriesTemp _ | addContextBound _ | addLoopVariable _ | addTemp _ =>
    if pairs = [] then none else some pairs
  | _ => some pairs

/-- Every pair that the run opens is closed again, in proper order. -/
def Nested (ops : List Operation) : Prop := ops.foldlM Operation.pairs? [] = some []

instance (ops : List Operation) : Decidable (Nested ops) := inferInstanceAs (Decidable (_ = _))

/-- The scopes and function bodies of `s` are still open in `t`, below one scope for each open
pair. -/
structure Above (s : Scopes) (pairs : List Pair) (t : Scopes) : Prop where
  stack : t.stack.drop pairs.length = s.stack
  frames : t.frames.drop (pairs.count .function) = s.frames

namespace Above

variable {s t : Scopes} {pair : Pair} {pairs pairs' : List Pair}

/-- What a pair declares, it declares in the scope of the pair. -/
theorem addVariable (h : Above s pairs t) (hinside : pairs ≠ []) (name : String)
    (kind : Script.VarKind) : Above s pairs (t.addVariable name kind).2 := by
  obtain ⟨pair, more, rfl⟩ := List.exists_cons_of_ne_nil hinside
  unfold Scopes.addVariable
  split
  · exact h
  · exact ⟨h.stack, h.frames⟩

/-- Leaving the scope of the last pair brings back the scopes around it. -/
theorem stack_pop (h : Above s (pair :: pairs) t) : t.pop.stack.drop pairs.length = s.stack := by
  have houter : t.outer.drop pairs.length = s.stack := h.stack
  unfold pop
  split
  · rename_i hnil
    rw [hnil, List.drop_nil] at houter
    cases houter
  · rename_i next more hcons
    rw [hcons] at houter
    exact houter

theorem frames_pop (t : Scopes) : t.pop.frames = t.frames := by rw [pop_eq]

theorem apply (h : Above s pairs t) {op} (hop : op.pairs? pairs = some pairs') :
    Above s pairs' (t.apply op) := by
  cases op with
  | push kind =>
    cases hop
    exact ⟨h.stack, by simpa [Scopes.apply, push] using h.frames⟩
  | enterFunction frame =>
    cases hop
    exact ⟨h.stack, by simpa [Scopes.apply, enterFunction, push] using h.frames⟩
  | pop =>
    obtain ⟨hhead, hpairs⟩ := Option.ite_none_right_eq_some.mp hop
    obtain ⟨more, rfl⟩ := List.head?_eq_some_iff.mp hhead
    cases hpairs
    exact ⟨h.stack_pop, by simpa [Scopes.apply, frames_pop] using h.frames⟩
  | exitFunction =>
    obtain ⟨hhead, hpairs⟩ := Option.ite_none_right_eq_some.mp hop
    obtain ⟨more, rfl⟩ := List.head?_eq_some_iff.mp hhead
    cases hpairs
    refine ⟨?_, by simpa [Scopes.apply, exitFunction, frames_pop] using h.frames⟩
    rw [Scopes.apply, stack_exitFunction]
    exact h.stack_pop
  | addVariable name kind =>
    obtain ⟨hinside, hpairs⟩ := Option.ite_none_left_eq_some.mp hop
    cases hpairs
    exact h.addVariable hinside name kind
  | addSeriesTemp name =>
    obtain ⟨hinside, hpairs⟩ := Option.ite_none_left_eq_some.mp hop
    cases hpairs
    exact h.addVariable hinside name .lexical
  | addContextBound name | addLoopVariable name | addTemp name =>
    obtain ⟨hinside, hpairs⟩ := Option.ite_none_left_eq_some.mp hop
    obtain ⟨pair, more, rfl⟩ := List.exists_cons_of_ne_nil hinside
    cases hpairs
    exact ⟨h.stack, h.frames⟩
  | _ =>
    cases hop
    exact ⟨h.stack, h.frames⟩

theorem perform {ops} (h : Above s pairs t)
    (hops : ops.foldlM Operation.pairs? pairs = some pairs') : Above s pairs' (t.perform ops) := by
  induction ops generalizing t pairs with
  | nil =>
    cases hops
    exact h
  | cons op ops ih =>
    rw [List.foldlM_cons] at hops
    obtain ⟨next, hop, hmore⟩ := Option.bind_eq_some_iff.mp hops
    exact ih (h.apply hop) hmore

end Above

/-- From any state, a run that leaves what it enters and declares only inside of that changes
nothing for a name that some open scope binds, nor for which function bodies the walk is in. -/
theorem resolve_perform_of_nested (s : Scopes) {ops : List Operation} (h : Nested ops) :
    (∀ name, (∃ scope ∈ s.stack, (scope.lookup? name).isSome = true) →
        (s.perform ops).resolve name = s.resolve name) ∧
      (s.perform ops).inUserFunctionBody = s.inUserFunctionBody ∧
      (s.perform ops).insideUserFunction = s.insideUserFunction := by
  obtain ⟨hstack, hframes⟩ : Above s [] (s.perform ops) := Above.perform ⟨rfl, rfl⟩ h
  rw [List.length_nil, List.drop_zero] at hstack
  rw [List.count_nil, List.drop_zero] at hframes
  refine ⟨fun name hbound => ?_, by rw [inUserFunctionBody, hframes, inUserFunctionBody],
    by rw [insideUserFunction, hframes, insideUserFunction]⟩
  have hsome : (bindingIn? name s.stack).isSome = true := by
    rw [bindingIn?_eq_findSome?, List.findSome?_isSome_iff]
    exact hbound
  obtain ⟨binding, hbinding⟩ := Option.isSome_iff_exists.mp hsome
  rw [resolve, resolve, rootName_perform, hstack, hbinding]

/-- A variable that is hidden in a block, and again in a function in it, is itself again behind
them. -/
theorem hidden_variable_restored :
    let s := (ofRoot "context").perform [.enterFunction .user, .addVariable "x" .lexical]
    let ops := [.push .ifBranch, .addVariable "x" .lexical, .enterFunction .inline, .addTemp "x",
      .markContextBound "x", .exitFunction, .pop, .generateTemp]
    Nested ops ∧ (s.perform ops).resolve "x" = .slot "fn1_x" .lexical := by
  intro s ops
  have hnested : Nested ops := by decide
  exact ⟨hnested, ((resolve_perform_of_nested s hnested).1 "x" (by decide)).trans (by decide)⟩

/-! ## Generated names -/

/-- What hands out names. -/
inductive Generator where
  | param | call | temp
  deriving DecidableEq, Repr

/-- The number of the next name. -/
def Generator.next (generator : Generator) (s : Scopes) : Nat :=
  match generator with
  | param => s.nextParam
  | call => s.nextCall
  | temp => s.nextTemp

/-- A name that was handed out. -/
structure Generated where
  generator : Generator
  /-- What its number stands behind. -/
  stem : String
  name : String
  deriving DecidableEq, Repr

/-- The name that an operation hands out. -/
def generated? (s : Scopes) : Operation → Option Generated
  | .generateParam => some ⟨.param, "p", s.generateParam.1⟩
  | .generateCall namespaceName =>
    some ⟨.call, "_" ++ namespaceName, (s.generateCall namespaceName).1⟩
  | .generateTemp => some ⟨.temp, "_tmp", s.generateTemp.1⟩
  | _ => none

/-- The name that the operation at a place of a run hands out. -/
def generatedAt? (s : Scopes) (ops : List Operation) (i : Nat) : Option Generated :=
  ops[i]?.bind (s.perform (ops.take i)).generated?

section

variable {s : Scopes} {op : Operation} {g : Generated}

/-- A name and the counter behind it are the first free ones. -/
theorem numbered_of_generated? (h : s.generated? op = some g) :
    Text.numbered s.reserved g.stem (g.generator.next s) =
    (g.name, g.generator.next (s.apply op)) := by
  cases op with
  | generateParam | generateCall | generateTemp =>
    cases h
    rfl
  | _ => cases h

theorem stem_of_generated? (h : s.generated? op = some g) (hcall : g.generator ≠ .call) :
    g.stem = if g.generator = .param then "p" else "_tmp" := by
  cases op with
  | generateParam | generateTemp =>
    cases h
    rfl
  | generateCall =>
    cases h
    exact absurd rfl hcall
  | _ => cases h

/-- No counter goes back. -/
theorem next_le_apply (generator : Generator) (s : Scopes) (op : Operation) :
    generator.next s ≤ generator.next (s.apply op) := by
  cases op with
  | generateParam =>
    cases generator with
    | param => exact Nat.le_of_lt (Text.lt_numbered _ _ _)
    | call | temp => exact Nat.le_refl _
  | generateCall namespaceName =>
    cases generator with
    | call => exact Nat.le_of_lt (Text.lt_numbered _ _ _)
    | param | temp => exact Nat.le_refl _
  | generateTemp =>
    cases generator with
    | temp => exact Nat.le_of_lt (Text.lt_numbered _ _ _)
    | param | call => exact Nat.le_refl _
  | pop =>
    rw [apply, pop_eq]
    exact Nat.le_refl _
  | exitFunction =>
    rw [apply, exitFunction, pop_eq]
    exact Nat.le_refl _
  | addVariable x kind =>
    rw [apply, addVariable_eq]
    exact Nat.le_refl _
  | addSeriesTemp x =>
    rw [apply, addSeriesTemp, addVariable_eq]
    exact Nat.le_refl _
  | _ => exact Nat.le_refl _

theorem next_le_perform (generator : Generator) (s : Scopes) (ops : List Operation) :
    generator.next s ≤ generator.next (s.perform ops) := by
  induction ops generalizing s with
  | nil => exact Nat.le_refl _
  | cons op ops ih => exact Nat.le_trans (next_le_apply generator s op) (ih (s.apply op))

end

/-- The numbers of one generator go up along a run. -/
theorem next_apply_le_of_lt (s : Scopes) {ops : List Operation} {i j op} (hij : i < j)
    (hop : ops[i]? = some op) (generator : Generator) :
    generator.next ((s.perform (ops.take i)).apply op) ≤
      generator.next (s.perform (ops.take j)) := by
  have hfirst : (ops.take j).take (i + 1) = ops.take i ++ [op] := by
    rw [List.take_take, Nat.min_eq_left hij, List.take_add_one, hop]
    rfl
  rw [← List.take_append_drop (i + 1) (ops.take j), hfirst, perform_append, perform_append]
  exact next_le_perform generator _ _

/-- The name has the first number, from the counter on, that makes a name which is not reserved. -/
theorem number_of_generated? {s : Scopes} {op : Operation} {g : Generated}
    (h : s.generated? op = some g) :
    ∃ n, g.generator.next s ≤ n ∧ g.generator.next (s.apply op) = n + 1 ∧
      g.name = g.stem ++ toString n ∧ g.name ∉ s.reserved ∧
      ∀ m, g.generator.next s ≤ m → m < n → g.stem ++ toString m ∈ s.reserved := by
  obtain ⟨n, hn, heq, hfree⟩ := Text.numbered_eq s.reserved g.stem (g.generator.next s)
  have hnumbered := numbered_of_generated? h
  rw [hnumbered, Prod.mk.injEq] at heq
  refine ⟨n, hn, heq.2, heq.1, heq.1 ▸ hfree, fun m hm hlt => Text.mem_of_lt_numbered hm ?_⟩
  rw [hnumbered, heq.2]
  exact Nat.succ_lt_succ hlt

/-- The text has no decimal digit. -/
def DigitFree (text : String) : Prop := ∀ c ∈ text.toList, ¬ c.isDigit

/-- Over a run from any state, whatever it reserves and whenever, a generator hands out the first of
its names, from its counter on, that is not reserved then.  It passes over reserved names only, so
that the search for a free one ends.  It never hands out a name again; for calls in two namespaces
this needs namespaces without digits. -/
theorem generatedAt_fresh (s : Scopes) (ops : List Operation) {i : Nat} {g : Generated}
    (h : generatedAt? s ops i = some g) :
    g.name ∉ (s.perform (ops.take i)).reserved ∧
      (∃ n, g.generator.next (s.perform (ops.take i)) ≤ n ∧ g.name = g.stem ++ toString n ∧
        ∀ m, g.generator.next (s.perform (ops.take i)) ≤ m → m < n →
          g.stem ++ toString m ∈ (s.perform (ops.take i)).reserved) ∧
      ∀ j earlier, j < i → generatedAt? s ops j = some earlier → earlier.generator = g.generator →
        (g.generator = .call → earlier.stem = g.stem ∨ DigitFree earlier.stem ∧ DigitFree g.stem) →
        earlier.name ≠ g.name := by
  obtain ⟨op, -, hg⟩ := Option.bind_eq_some_iff.mp h
  obtain ⟨n, hn, -, hname, hfree, hpassed⟩ := number_of_generated? hg
  refine ⟨hfree, ⟨n, hn, hname, hpassed⟩, fun j earlier hji hj hsame hstems heq => ?_⟩
  obtain ⟨op', hop', hearlier⟩ := Option.bind_eq_some_iff.mp hj
  obtain ⟨m, -, hnext, hname', -⟩ := number_of_generated? hearlier
  -- the counter is past the earlier number when the later name is made
  have hlt : m < n := by
    have hle := next_apply_le_of_lt s hji hop' g.generator
    rw [← hsame, hnext, hsame] at hle
    omega
  have hstems : earlier.stem = g.stem ∨ DigitFree earlier.stem ∧ DigitFree g.stem := by
    by_cases hcall : g.generator = .call
    · exact hstems hcall
    · rw [stem_of_generated? hg hcall, stem_of_generated? hearlier (hsame ▸ hcall), hsame]
      exact .inl rfl
  rw [hname, hname'] at heq
  rcases hstems with hstem | ⟨hdigits, hdigits'⟩
  · rw [hstem] at heq
    exact Nat.ne_of_lt hlt (Text.append_toString_inj heq)
  · exact Nat.ne_of_lt hlt (Text.numbered_inj hdigits hdigits' heq).2

/-- Names that are reserved between two calls are passed over. -/
theorem reserved_call_passed_over :
    let ops := [.generateCall "ta", .reserve "_fn1", .reserve "_ta1", .push .block,
      .generateCall "fn"]
    generatedAt? (ofRoot "context") ops 0 = some ⟨.call, "_ta", "_ta0"⟩ ∧
      generatedAt? (ofRoot "context") ops 4 = some ⟨.call, "_fn", "_fn2"⟩ ∧
      "_fn2" ∉ ((ofRoot "context").perform (ops.take 4)).reserved ∧ "_ta0" ≠ "_fn2" := by
  intro ops
  have hfirst : generatedAt? (ofRoot "context") ops 0 = some ⟨.call, "_ta", "_ta0"⟩ := by
    decide +kernel
  have hlater : generatedAt? (ofRoot "context") ops 4 = some ⟨.call, "_fn", "_fn2"⟩ := by
    decide +kernel
  obtain ⟨hfree, -, hdistinct⟩ := generatedAt_fresh (ofRoot "context") ops hlater
  exact ⟨hfirst, hlater, hfree, hdistinct 0 _ (by decide) hfirst rfl fun _ =>
    .inr ⟨by simp [DigitFree], by simp [DigitFree]⟩⟩

end IndicatorCompiler.Scopes
