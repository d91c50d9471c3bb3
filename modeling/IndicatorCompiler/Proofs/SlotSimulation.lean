import IndicatorCompiler.Proofs.SlotLayout
import IndicatorCompiler.Proofs.Walks

/-!
# The slot form does what the body does

A body and its slot form are run side by side.  The variables of the body are those of the layout,
in the same order; the slot form has the counters among them as variables and keeps the others in
the store.  A walk over a statement leaves statements that keep this relation and show the same
trace.
-/

namespace IndicatorCompiler.Script

open SlotForm
open List (lookup_cons)

variable {V S : Type}

/-! ## Variables and slots -/

/-- The variables of a body, and the variables and the store of its slot form, follow a layout. -/
inductive Aligned (M : ValueModel V) (R : Runtime V S) (store : S) :
    Layout → Env V → Env V → Prop where
  | nil : Aligned M R store [] [] []
  | counter {L env env' x opened var} (value : opened = true → ∃ v, var = ⟨.lexical, some v⟩)
      (ofKind : var.kind = .lexical) (rest : Aligned M R store L env env') :
      Aligned M R store ((x, ⟨.counter, opened⟩) :: L) ((x, var) :: env) ((x, var) :: env')
  | slot {L env env' x opened kind renamed var}
      (value : opened = true → ∃ v, var = ⟨kind, some v⟩ ∧ R.get kind renamed M.now store = some v)
      (ofKind : var.kind = kind) (rest : Aligned M R store L env env') :
      Aligned M R store ((x, ⟨.slot kind renamed, opened⟩) :: L) ((x, var) :: env) env'

/-- The kind of the variable. -/
def Place.kind : Place → VarKind
  | counter => .lexical
  | slot kind _ => kind

/-- The place holds the value of the name. -/
def Place.Holds (M : ValueModel V) (R : Runtime V S) (store : S) (env : Env V) (x : String)
    (v : V) : Place → Prop
  | counter => env.lookup x = some ⟨.lexical, some v⟩
  | slot kind renamed => R.get kind renamed M.now store = some v

namespace Aligned

variable {M : ValueModel V} {R : Runtime V S} {store : S} {L : Layout} {env env' : Env V}
    {x : String}

/-- The value of an open variable is that of the slot form's variable for a counter, and in the slot
for any other one. -/
theorem lookup_open (h : Aligned M R store L env env') {p} (hx : L.lookup x = some ⟨p, true⟩) :
    ∃ v, env.lookup x = some ⟨p.kind, some v⟩ ∧ p.Holds M R store env' x v := by
  induction h with
  | nil => simp at hx
  | @counter L env env' y opened var value kind rest ih =>
    rw [lookup_cons] at hx
    split at hx
    · next heq =>
      cases hx
      obtain ⟨v, rfl⟩ := value rfl
      refine ⟨v, ?_, ?_⟩
      · simp [lookup_cons, heq, Place.kind]
      · simp [lookup_cons, heq, Place.Holds]
    · next hne =>
      obtain ⟨v, hv, hheld⟩ := ih hx
      refine ⟨v, by simpa [lookup_cons, hne] using hv, ?_⟩
      cases p with
      | counter => simpa [Place.Holds, lookup_cons, hne] using hheld
      | slot => exact hheld
  | @slot L env env' y opened kind renamed var value hkind rest ih =>
    rw [lookup_cons] at hx
    split at hx
    · next heq =>
      cases hx
      obtain ⟨v, rfl, hget⟩ := value rfl
      exact ⟨v, by simp [lookup_cons, heq, Place.kind], hget⟩
    · next hne =>
      obtain ⟨v, hv, hheld⟩ := ih hx
      exact ⟨v, by simpa [lookup_cons, hne] using hv, hheld⟩

/-- The slot form has no variable of a name that is no counter. -/
theorem lookup_eq_none (h : Aligned M R store L env env')
    (hx : (x, Place.counter) ∉ L.roles) : env'.lookup x = none := by
  induction h with
  | nil => rfl
  | @counter L env env' y opened var value kind rest ih =>
    simp only [InScope.roles, List.map_cons, List.mem_cons, not_or, Prod.mk.injEq, and_true] at hx
    have hne : (x == y) = false := by simpa using hx.1
    simpa [lookup_cons, hne] using ih hx.2
  | @slot L env env' y opened kind renamed var value hkind rest ih =>
    exact ih fun hmem => hx (List.mem_cons_of_mem _ hmem)

/-- A store that keeps the slots of the layout keeps the relation. -/
theorem store_congr (h : Aligned M R store L env env') {store'}
    (hsame : ∀ r ∈ L.slots, ∀ kind, R.get kind r M.now store' = R.get kind r M.now store) :
    Aligned M R store' L env env' := by
  induction h with
  | nil => exact .nil
  | counter value kind rest ih => exact .counter value kind (ih hsame)
  | @slot L env env' y opened kind renamed var value hkind rest ih =>
    refine .slot ?_ hkind (ih fun r hr => hsame r (List.mem_cons_of_mem _ hr))
    intro hopened
    obtain ⟨v, hv, hget⟩ := value hopened
    exact ⟨v, hv,
      (hsame renamed (by simp [Layout.slots, InScope.roles, Place.slot?]) kind).trans hget⟩

theorem write_counter (h : Aligned M R store L env env') {opened}
    (hx : L.lookup x = some ⟨.counter, opened⟩) (v : V) :
    Aligned M R store (L.opening x) (env.write x v) (env'.write x v) := by
  induction h with
  | nil => simp at hx
  | @counter L env env' y o var value kind rest ih =>
    simp only [InScope.opening, Env.write]
    split
    · refine .counter (fun _ => ⟨v, ?_⟩) kind rest
      simp [← kind]
    · next hne =>
      have hbeq : (x == y) = false := by simp [Ne.symm hne]
      rw [lookup_cons, hbeq] at hx
      exact .counter value kind (ih hx)
  | @slot L env env' y o kind renamed var value hkind rest ih =>
    rw [lookup_cons] at hx
    split at hx
    · cases hx
    · next hbeq =>
      have hne : ¬ y = x := fun heq => by simp [heq] at hbeq
      simp only [InScope.opening, Env.write, if_neg hne]
      exact .slot value hkind (ih hx)

/-- A value is given to any other variable, and stored in its slot and no other. -/
theorem write_slot (h : Aligned M R store L env env') (hnodup : L.slots.Nodup) {kind renamed opened}
    (hx : L.lookup x = some ⟨.slot kind renamed, opened⟩) {v store'}
    (hget : R.get kind renamed M.now store' = some v)
    (hsame : ∀ k r, (k, r) ≠ (kind, renamed) → R.get k r M.now store' = R.get k r M.now store) :
    Aligned M R store' (L.opening x) (env.write x v) env' := by
  induction h with
  | nil => simp at hx
  | @counter L env env' y o var value hkind rest ih =>
    rw [lookup_cons] at hx
    split at hx
    · cases hx
    · next hbeq =>
      have hne : ¬ y = x := fun heq => by simp [heq] at hbeq
      simp only [InScope.opening, Env.write, if_neg hne]
      exact .counter value hkind (ih hnodup hx)
  | @slot L env env' y o k r var value hkind rest ih =>
    have hslots : Layout.slots ((y, ⟨.slot k r, o⟩) :: L) = r :: Layout.slots L := rfl
    rw [hslots, List.nodup_cons] at hnodup
    simp only [InScope.opening, Env.write]
    split
    · next heq =>
      -- the slot of the variable itself; the slots behind it are others
      rw [heq, List.lookup_cons_self] at hx
      cases hx
      refine .slot (fun _ => ⟨v, ?_, hget⟩) hkind (rest.store_congr fun r' hr' kind' => ?_)
      · simp [← hkind]
      · refine hsame kind' r' fun heq' => hnodup.1 ?_
        cases heq'
        exact hr'
    · next hne =>
      have hbeq : (x == y) = false := by simp [Ne.symm hne]
      rw [lookup_cons, hbeq] at hx
      refine .slot ?_ hkind (ih hnodup.2 hx)
      intro hopened
      obtain ⟨u, hu, hgetu⟩ := value hopened
      refine ⟨u, hu, (hsame k r fun heq => hnodup.1 ?_).trans hgetu⟩
      -- the slot that is written belongs to a name further out
      cases heq
      exact List.mem_filterMap.mpr ⟨_, Layout.mem_roles_of_lookup hx, rfl⟩

theorem enterBlock (h : Aligned M R store L env env') (scope : Scope)
    (names : List (String × VarKind)) :
    Aligned M R store (Layout.block scope names ++ L) (Env.opened names ++ env) env' := by
  induction names with
  | nil => exact h
  | cons x rest ih => exact .slot Bool.noConfusion rfl ih

theorem enterLoop (h : Aligned M R store L env env') {names}
    (hlexical : ∀ x ∈ names, x.2 = .lexical) :
    Aligned M R store (Layout.counters names ++ L) (Env.opened names ++ env)
    (Env.opened names ++ env') := by
  induction names with
  | nil => exact h
  | cons x rest ih =>
    refine .counter Bool.noConfusion (hlexical x (by simp)) ?_
    exact ih fun y hy => hlexical y (by simp [hy])

theorem leaveBlock {K} (hK : ∀ e ∈ K.roles, e.2 ≠ .counter)
    (h : Aligned M R store (K ++ L) env env') : Aligned M R store L (env.drop K.length) env' := by
  induction K generalizing env with
  | nil => exact h
  | cons e K ih =>
    cases h with
    | counter value kind rest => exact absurd rfl (hK _ List.mem_cons_self)
    | slot value kind rest => exact ih (fun e he => hK e (List.mem_cons_of_mem _ he)) rest

theorem leaveLoop {K} (hK : ∀ e ∈ K.roles, e.2 = .counter)
    (h : Aligned M R store (K ++ L) env env') :
    Aligned M R store L (env.drop K.length) (env'.drop K.length) := by
  induction K generalizing env env' with
  | nil => exact h
  | cons e K ih =>
    cases h with
    | counter value kind rest => exact ih (fun e he => hK e (List.mem_cons_of_mem _ he)) rest
    | slot value kind rest => exact absurd (hK _ List.mem_cons_self) (by simp)

end Aligned

/-- A machine that runs a body and one that runs its slot form are at the same point. -/
def Related (M : ValueModel V) (R : Runtime V S) (L : Layout) (m m' : Machine V S) : Prop :=
  Aligned M R m'.store L m.env m'.env

/-- Two runs both fail, or end at the same point with the same trace. -/
def Outcome.Matches (M : ValueModel V) (R : Runtime V S) (L : Layout) :
    Outcome V S → Outcome V S → Prop
  | some (m, seen), some (m', seen') => seen = seen' ∧ Related M R L m m'
  | none, none => True
  | _, _ => False

section

variable {M : ValueModel V} {R : Runtime V S} {L : Layout}

theorem Outcome.Matches.andThen {K : Layout} {o o' : Outcome V S}
    {next next' : Machine V S → Outcome V S} (h : o.Matches M R L o')
    (hnext : ∀ m m', Related M R L m m' → (next m).Matches M R K (next' m')) :
    (o.andThen next).Matches M R K (o'.andThen next') := by
  match o, o', h with
  | none, none, _ => exact trivial
  | some (m, seen), some (m', _), ⟨rfl, hm⟩ =>
    have hn := hnext m m' hm
    simp only [Outcome.andThen, Option.bind_some]
    match hf : next m, hf' : next' m' with
    | none, none => trivial
    | some (n, more), some (n', more') =>
      rw [hf, hf'] at hn
      exact ⟨congrArg (seen ++ ·) hn.1, hn.2⟩
    | none, some _ | some _, none => rw [hf, hf'] at hn; exact hn

/-- Runs that write the same value match if the machines after the write are related. -/
theorem Outcome.matches_map {v v'} {f f' : V → Machine V S} (hv : v' = v)
    (hf : ∀ a, v = some a → Related M R L (f a) (f' a)) :
    Outcome.Matches M R L (v.map fun a => (f a, [.write a]))
    (v'.map fun a => (f' a, [.write a])) := by
  subst hv
  cases v' with
  | none => trivial
  | some a => exact ⟨rfl, hf a rfl⟩

/-- Loops whose tests and steps agree show the same trace. -/
theorem Outcome.matches_runWhile {test test' : Machine V S → Option Bool}
    {step step' : Machine V S → Outcome V S}
    (htest : ∀ m m', Related M R L m m' → test' m' = test m)
    (hstep : ∀ m m', Related M R L m m' → (step m).Matches M R L (step' m')) (fuel : Nat) :
    ∀ m m', Related M R L m m' →
      (runWhile test step fuel m).Matches M R L (runWhile test' step' fuel m') := by
  induction fuel with
  | zero => exact fun _ _ _ => trivial
  | succ fuel ih =>
    intro m m' hm
    simp only [runWhile, htest m m' hm]
    cases test m with
    | none => trivial
    | some b =>
      cases b with
      | false => exact ⟨rfl, hm⟩
      | true =>
        have hfirst : Outcome.Matches M R L (some (m, [.test true])) (some (m', [.test true])) :=
          ⟨rfl, hm⟩
        exact (hfirst.andThen hstep).andThen ih

end

/-! ## Expressions -/

section

variable {M : ValueModel V} {R : Runtime V S} {L : Layout} {w : Walk} {m m' : Machine V S}

/-- The context is not hidden from the slot form. -/
theorem Related.context_free (hm : Related M R L m m')
    (h : Located w.scopes L) : m'.env.lookup contextName = none := by
  refine Aligned.lookup_eq_none hm fun hmem => ?_
  exact (h.proper _ hmem).1 rfl

@[simp] theorem slotOf?_slotRef (kind : VarKind) (renamed : String) :
    slotOf? (slotRef kind renamed) = some (kind, renamed) := by
  cases kind <;> simp [slotOf?, slotRef, VarKind.text]

theorem eval_readNow (hctx : m.env.lookup contextName = none) (kind : VarKind) (renamed : String) :
    eval M R m (readNow (slotRef kind renamed)) = R.get kind renamed M.now m.store := by
  simp [readNow, readAt, contextCall, eval, hctx, runtimeQuery?, Expr.nat, Expr.num, ValueModel.now]

/-- An open name in the layout is one in the names in scope. -/
theorem lookup_of_any {x} {p : Standing Role → Bool}
    (h : ((L.mapRole Place.role).lookup x).any p = true) :
    ∃ q o, L.lookup x = some ⟨q, o⟩ ∧ p ⟨q.role, o⟩ = true := by
  rw [InScope.lookup_mapRole] at h
  cases hx : L.lookup x with
  | none => simp [hx] at h
  | some st => exact ⟨st.role, st.opened, rfl, by simpa [hx] using h⟩

/-- A name that can be read has the same value in the slot form. -/
theorem eval_nameAt (h : Located w.scopes L) {x p} (hx : L.lookup x = some ⟨p, true⟩)
    (hm : Related M R L m m') :
    eval M R m' (Operand.nameAt x p.binding.resolution .value) = eval M R m (.ident x) := by
  cases p with
  | counter =>
    obtain ⟨v, hv, (hv' : m'.env.lookup x = _)⟩ := Aligned.lookup_open hm hx
    simp [Place.binding, Binding.resolution, Operand.nameAt, eval, Env.read, hv, hv']
  | slot kind renamed =>
    obtain ⟨v, hv, hget⟩ := Aligned.lookup_open hm hx
    simp only [Place.binding, Binding.resolution, Operand.nameAt]
    rw [eval_readNow (hm.context_free h), hget]
    simp [eval, Env.read, hv]

/-- The slot form compares with the equality of the source. -/
theorem eval_combined (hR : R.Contract M) (op : BinaryOp) {left right left' right'}
    (hctx : m'.env.lookup contextName = none) (hl : eval M R m' left' = eval M R m left)
    (hr : eval M R m' right' = eval M R m right) :
    eval M R m' (Operand.combined op left' right') = eval M R m (.binary op left right) := by
  cases op
  case eq | strictEq =>
    simp [Operand.combined, eval, hctx, runtimeQuery?, hl, hr, hR.equal_eq, ValueModel.operate]
  case notEq | strictNotEq =>
    simp [Operand.combined, Expr.not, eval, hctx, runtimeQuery?, hl, hr, hR.equal_eq,
      ValueModel.operate, Option.bind_assoc]
  all_goals simp [Operand.combined, eval, hl, hr]

/-- The walk over a pure expression changes nothing, and its result has the same value at every
point of the run that is laid out like the walk. -/
theorem walks_value (hR : R.Contract M) (h : Located w.scopes L) (e : Expr)
    (he : pureOver (L.mapRole Place.role) e = true) :
    ∃ e', (∀ ancestors, Succeeds ((operand e).value ancestors) w e' w) ∧
      ∀ m m', Related M R L m m' → eval M R m' e' = eval M R m e := by
  fun_induction pureOver (L.mapRole Place.role) e with
  | case1 name =>
    obtain ⟨p, o, hx, ho⟩ := lookup_of_any he
    cases ho
    refine ⟨Operand.nameAt name p.binding.resolution .value, ?_, fun m m' => eval_nameAt h hx⟩
    intro ancestors
    simp [operand, Operand.value, Operand.ident, h.resolve hx]
  | case2 value =>
    exact ⟨.lit value, fun _ => by simp [operand, Operand.value, Operand.lit], fun _ _ _ => rfl⟩
  | case3 op arg ih =>
    simp only [Bool.and_eq_true] at he
    obtain ⟨arg', hwalk, heval⟩ := ih he.2
    refine ⟨.unary op arg', fun ancestors => ?_, fun m m' hm => ?_⟩
    · simpa [operand, Operand.value, Operand.unary] using hwalk ("Unary" :: ancestors)
    · simp [eval, heval m m' hm]
  | case4 op left right ihl ihr =>
    simp only [Bool.and_eq_true] at he
    obtain ⟨left', hwl, hel⟩ := ihl he.1
    obtain ⟨right', hwr, her⟩ := ihr he.2
    refine ⟨Operand.combined op left' right', fun ancestors => ?_, fun m m' hm => ?_⟩
    · simp only [operand, Operand.value, Operand.binary, succeeds_bind_iff, succeeds_pure_iff]
      exact ⟨left', w, hwl _, right', w, hwr _, rfl, rfl⟩
    · exact eval_combined hR op (hm.context_free h) (hel m m' hm) (her m m' hm)
  | case5 test consequent alternate iht ihc iha =>
    simp only [Bool.and_eq_true] at he
    obtain ⟨test', hwt, het⟩ := iht he.1.1
    obtain ⟨consequent', hwc, hec⟩ := ihc he.1.2
    obtain ⟨alternate', hwa, hea⟩ := iha he.2
    refine ⟨.conditional test' consequent' alternate', fun ancestors => ?_, fun m m' hm => ?_⟩
    · simp only [operand, Operand.value, Operand.conditional, succeeds_bind_iff, succeeds_pure_iff]
      exact ⟨test', w, hwt _, consequent', w, hwc _, alternate', w, hwa _, rfl, rfl⟩
    · simp [eval, het m m' hm, hec m m' hm, hea m m' hm]
  | case6 => simp at he

theorem walks_value? (hR : R.Contract M) (h : Located w.scopes L) (e : Option Expr)
    (he : pureOver? (L.mapRole Place.role) e = true) :
    ∃ e', (∀ ancestors, Succeeds (value? (operand? e) ancestors) w e' w) ∧
      Option.Rel (fun e e' => ∀ m m', Related M R L m m' → eval M R m' e' = eval M R m e) e e' := by
  cases e with
  | none => exact ⟨none, fun _ => by simp [operand?, value?], .none⟩
  | some e =>
    obtain ⟨e', hwalk, heval⟩ := walks_value hR h e he
    exact ⟨some e', fun ancestors => by simpa [operand?, value?] using hwalk ancestors, .some heval⟩

end

end IndicatorCompiler.Script
