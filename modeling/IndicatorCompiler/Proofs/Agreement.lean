import IndicatorCompiler.Parsing

/-!
# Agreement of steps

Two steps agree if, from related states, they fail with related errors or end in related states with
the same result.  `Agrees S T E x y P` says besides that the result satisfies `P`; states are
related by `S` before the steps and by `T` after them, which may depend on the result.  There is one
rule for each way of building a step, so that agreement is shown along the definition of a parser.
-/

namespace IndicatorCompiler

variable {σ ε α β : Type}

/-- Related outcomes of two steps. -/
inductive Agreed (T : α → σ → σ → Prop) (E : ε → ε → Prop) (P : α → Prop) :
    Except ε (α × σ) → Except ε (α × σ) → Prop
  | ok {a} (ha : P a) {s t} (h : T a s t) : Agreed T E P (.ok (a, s)) (.ok (a, t))
  | error {e f} (h : E e f) : Agreed T E P (.error e) (.error f)

theorem Agreed.mono {T U : α → σ → σ → Prop} {E : ε → ε → Prop} {P : α → Prop} {x y}
    (h : Agreed T E P x y) (hT : ∀ a s t, T a s t → U a s t) : Agreed U E P x y := by
  cases h with
  | ok ha hst => exact .ok ha (hT _ _ _ hst)
  | error he => exact .error he

/-- From related states the steps have related outcomes. -/
def Agrees (S : σ → σ → Prop) (T : α → σ → σ → Prop) (E : ε → ε → Prop)
    (x y : StateT σ (Except ε) α) (P : α → Prop) : Prop :=
  ∀ ⦃s t : σ⦄, S s t → Agreed T E P (x s) (y t)

variable {S S' : σ → σ → Prop} {T : α → σ → σ → Prop} {U : β → σ → σ → Prop} {E : ε → ε → Prop}
  {P : α → Prop} {Q : β → Prop} {x y : StateT σ (Except ε) α}

theorem Agrees.outcomes (h : Agrees S T E x y P) {s t} (hst : S s t) :
    (∃ a s' t', x s = .ok (a, s') ∧ y t = .ok (a, t') ∧ P a) ∨
      ∃ e f, x s = .error e ∧ y t = .error f ∧ E e f := by
  have hxy := h hst
  generalize x s = left, y t = right at hxy ⊢
  cases hxy with
  | ok ha => exact .inl ⟨_, _, _, rfl, rfl, ha⟩
  | error he => exact .inr ⟨_, _, rfl, rfl, he⟩

theorem Agrees.mono {P' : α → Prop} (h : Agrees S T E x y P)
    (hP : ∀ a, P a → P' a) : Agrees S T E x y P' := by
  intro s t hst
  have hxy := h hst
  generalize x s = left, y t = right at hxy ⊢
  cases hxy with
  | ok ha hst' => exact .ok (hP _ ha) hst'
  | error he => exact .error he

theorem agrees_pure {a} (h : P a) : Agrees S (fun _ => S) E (pure a) (pure a) P :=
  fun _ _ hst => .ok h hst

theorem agrees_none {T : Option α → σ → σ → Prop} (hT : T none = S := by rfl) :
    Agrees S T E (pure none) (pure none) fun a => ∀ b ∈ a, P b :=
  fun _ _ hst => .ok (by simp) (hT ▸ hst)

theorem agrees_some {T : Option α → σ → σ → Prop} {a} (h : P a) (hT : T (some a) = S := by rfl) :
    Agrees S T E (pure (some a)) (pure (some a)) fun a => ∀ b ∈ a, P b :=
  fun _ _ hst => .ok (by simpa using h) (hT ▸ hst)

theorem Agrees.bind {f g : α → StateT σ (Except ε) β}
    (h : Agrees S T E x y P) (hf : ∀ a, P a → Agrees (T a) U E (f a) (g a) Q) :
    Agrees S U E (x >>= f) (y >>= g) Q := by
  intro s t hst
  show Agreed U E Q (x s >>= fun p => f p.1 p.2) (y t >>= fun p => g p.1 p.2)
  have hxy := h hst
  generalize x s = left, y t = right at hxy ⊢
  cases hxy with
  | ok ha hst' => exact hf _ ha hst'
  | error he => exact .error he

theorem Agrees.then {T : Unit → σ → σ → Prop} {P : Unit → Prop} {x y : StateT σ (Except ε) Unit}
    {f g : Unit → StateT σ (Except ε) β} (h : Agrees S T E x y P)
    (hf : Agrees (T ()) U E (f ()) (g ()) Q) : Agrees S U E (x >>= f) (y >>= g) Q :=
  h.bind fun _ _ => hf

theorem Agrees.map {f : α → β} (h : Agrees S (fun _ => S') E x y P)
    (hf : ∀ a, P a → Q (f a)) : Agrees S (fun _ => S') E (f <$> x) (f <$> y) Q := by
  rw [map_eq_pure_bind, map_eq_pure_bind]
  exact h.bind fun a ha => agrees_pure (hf a ha)

/-! ## Access to the state -/

theorem agrees_get_bind {f g : σ → StateT σ (Except ε) β}
    (h : ∀ ⦃s t : σ⦄, S s t → Agrees S U E (f s) (g t) Q) :
    Agrees S U E ((get : StateT σ (Except ε) σ) >>= f) (get >>= g) Q :=
  fun _ _ hst => h hst hst

theorem agrees_throw {e f} (h : E e f) : Agrees S T E (throw e) (throw f) P := fun _ _ _ => .error h

theorem agrees_set {s t} (h : S' s t) :
    Agrees S (fun _ => S') E (set s) (set t) fun _ : PUnit => True :=
  fun _ _ _ => .ok trivial h

theorem agrees_modify {f : σ → σ} (h : ∀ ⦃s t : σ⦄, S s t → S' (f s) (f t)) :
    Agrees S (fun _ => S') E (modify f) (modify f) fun _ : PUnit => True :=
  fun _ _ hst => .ok trivial (h hst)

/-! ## Repetition -/

namespace Parsing

/-- These are the last tokens of `r`; with `c`, some have been read. -/
def Left {τ : Type} (r : List τ) (c : Bool) (tokens : List τ) : Prop :=
  tokens <:+ r ∧ (c = true → tokens.length < r.length)

section

variable {τ : Type} {r tokens more : List τ} {c d : Bool} {t : τ}

theorem Left.refl : Left r false r := ⟨List.suffix_refl r, nofun⟩

theorem Left.weaken (h : Left r true tokens) : Left r c tokens := ⟨h.1, fun _ => h.2 rfl⟩

theorem Left.tail (h : Left r c (t :: tokens)) : Left r true tokens :=
  ⟨(List.suffix_cons t tokens).trans h.1, fun _ => h.1.length_le⟩

theorem Left.keep (h : Left r c tokens) (h' : Left tokens d more) : Left r c more :=
  ⟨h'.1.trans h.1, fun hc => Nat.lt_of_le_of_lt h'.1.length_le (h.2 hc)⟩

theorem Left.trans (h : Left r c tokens) (h' : Left tokens d more) : Left r d more :=
  ⟨h'.1.trans h.1, fun hd => Nat.lt_of_lt_of_le (h'.2 hd) h.1.length_le⟩

end

variable {step step' : Parser σ ε (Option α)} {atEnd atEnd' separator separator' : Parser σ ε Bool}
  {item item' : Parser σ ε α}

theorem attempt_apply (step : Parser σ ε (Option α)) (s : σ) : attempt step s =
    match step s with
    | .ok (some a, s') => .ok (some a, s')
    | _ => .ok (none, s) := by
  show Except.bind (Except.tryCatch (step s) fun _ => .ok (none, s)) _ = _
  rcases step s with e | ⟨_ | a, s'⟩ <;> rfl

/-- What was read is forgotten in both, if they fail. -/
theorem agrees_attempt {T : Bool → σ → σ → Prop}
    (h : Agrees (T false) (fun _ => T true) E step step' fun a => ∀ b ∈ a, P b) :
    Agrees (T false) (fun a => T a.isSome) E (attempt step) (attempt step') fun a =>
      ∀ b ∈ a, P b := by
  intro s t hst
  rw [attempt_apply, attempt_apply]
  have hsteps := h hst
  generalize step s = left, step' t = right at hsteps ⊢
  cases hsteps with
  | error => exact .ok (by simp) hst
  | @ok a ha _ _ hst' =>
    cases a with
    | none => exact .ok ha hst
    | some a => exact .ok ha hst'

/-- Relations of streams that tell which tokens are left in the first, and that the second allows
for no fewer rounds of a loop. -/
structure Based [Remaining σ] {τ : Type} (left : σ → List τ) (S : List τ → Bool → σ → σ → Prop) :
    Prop where
  tokens {r c s t} (h : S r c s t) : Left r c (left s)
  rebase {r c r' d s t} (h : S r c s t) (h' : Left r' d (left s)) : S r' d s t
  enough {r c s t} (h : S r c s t) :
    (left s).length ≤ Remaining.remaining s ∧ (left s).length ≤ Remaining.remaining t

namespace Based

variable [Remaining σ] {τ : Type} {left : σ → List τ} {S : List τ → Bool → σ → σ → Prop}
  (hS : Based left S) {r : List τ} {c : Bool}
include hS

theorem agrees_weaken (h : Agrees S' (fun _ => S r true) E x y P) :
    Agrees S' (fun _ => S r c) E x y P :=
  fun _ _ hst => (h hst).mono fun _ _ _ h => hS.rebase h (hS.tokens h).weaken

/-- What was read before does not matter. -/
theorem agrees_rebase {d : α → Bool}
    (h : ∀ r', Left r c r' → Agrees (S r' false) (fun a => S r' (d a)) E x y P) :
    Agrees (S r c) (fun _ => S r c) E x y P :=
  fun s _ hst => (h (left s) (hS.tokens hst) (hS.rebase hst .refl)).mono fun _ _ _ h =>
    hS.rebase h ((hS.tokens hst).keep (hS.tokens h))

/-- Bounds are larger than the numbers of tokens that are left. -/
theorem agrees_budget_bind {f g : Nat → Parser σ ε α}
    (h : ∀ r' fuel fuel', Left r c r' → r'.length < fuel → r'.length < fuel' →
      Agrees (S r' false) (fun _ => S r' false) E (f fuel) (g fuel') P) :
    Agrees (S r c) (fun _ => S r c) E (budget >>= f) (budget >>= g) P :=
  fun s _ hst => (h (left s) _ _ (hS.tokens hst) (Nat.lt_succ_of_le (hS.enough hst).1)
    (Nat.lt_succ_of_le (hS.enough hst).2) (hS.rebase hst .refl)).mono fun _ _ _ h =>
      hS.rebase h ((hS.tokens hst).keep (hS.tokens h))

/-- Each value of a repetition is one of its step, and takes a token. -/
theorem agrees_repeatWithin {fuel fuel'} (h : ∀ r', Left r false r' →
      Agrees (S r' false) (fun a => S r' a.isSome) E step step' fun a => ∀ b ∈ a, P b)
    (hfuel : r.length < fuel) (hfuel' : r.length < fuel') :
    Agrees (S r false) (fun _ => S r false) E (repeatWithin step fuel) (repeatWithin step' fuel')
      fun as => ∀ a ∈ as, P a := by
  induction fuel generalizing r fuel' with
  | zero => omega
  | succ fuel ih =>
    obtain _ | fuel' := fuel'
    · omega
    · refine (h r .refl).bind fun a ha => ?_
      cases a with
      | none => exact agrees_pure (by simp)
      | some a =>
        refine hS.agrees_weaken
          (Agrees.bind (hS.agrees_rebase (d := fun _ => false) fun r' hr' => ?_)
          fun as has => agrees_pure (List.forall_mem_cons.mpr ⟨ha a rfl, has⟩))
        have := hr'.2 rfl
        exact ih (fun r'' hr'' => h r'' (hr'.trans hr'')) (by omega) (by omega)

theorem agrees_repeated (h : ∀ r', Left r c r' →
      Agrees (S r' false) (fun a => S r' a.isSome) E step step' fun a => ∀ b ∈ a, P b) :
    Agrees (S r c) (fun _ => S r c) E (repeated step) (repeated step') fun as => ∀ a ∈ as, P a := by
  refine hS.agrees_rebase (d := fun _ => false) fun r' hr' => (h r' hr').bind fun a ha => ?_
  cases a with
  | none => exact agrees_pure (by simp)
  | some a =>
    refine hS.agrees_weaken (hS.agrees_budget_bind fun r'' fuel fuel' hr'' hfuel hfuel' => ?_)
    exact (hS.agrees_repeatWithin (fun u hu => h u (hr'.keep (hr''.keep hu))) hfuel hfuel').bind
      fun as has => agrees_pure (List.forall_mem_cons.mpr ⟨ha a rfl, has⟩)

section

variable (hend : ∀ r, Agrees (S r false) (fun _ => S r false) E atEnd atEnd' fun _ => True)
  (hseparator : ∀ r, Agrees (S r false) (fun found => S r found) E separator separator'
    fun _ => True)

include hseparator

theorem agrees_itemsOne (hfirst : Agrees S' (fun _ => S r true) E item item' P)
    (h : ∀ r', Left r true r' → Agrees (S r' false) (fun _ => S r' true) E item item' P) :
    Agrees S' (fun _ => S r true) E (itemsOne separator item) (itemsOne separator' item')
      fun as => as ≠ [] ∧ ∀ a ∈ as, P a := by
  refine hfirst.bind fun a ha => (hS.agrees_repeated fun r' hr' => ?_).bind fun as has =>
    agrees_pure ⟨List.cons_ne_nil a as, List.forall_mem_cons.mpr ⟨ha, has⟩⟩
  refine (hseparator r').bind fun separated _ => ?_
  cases separated with
  | true =>
    exact (hS.agrees_rebase fun r'' hr'' => h r'' (hr'.trans hr'')).bind fun b hb => agrees_some hb
  | false => exact agrees_none

include hend

/-- Items may be empty, but separators are not. -/
theorem agrees_itemsWithin {fuel fuel'}
    (h : ∀ r', Left r false r' → Agrees (S r' false) (fun _ => S r' false) E item item' P)
    (hfuel : r.length < fuel) (hfuel' : r.length < fuel') :
    Agrees (S r false) (fun _ => S r false) E (itemsWithin atEnd separator item fuel)
      (itemsWithin atEnd' separator' item' fuel') fun as => ∀ a ∈ as, P a := by
  induction fuel generalizing r fuel' with
  | zero => omega
  | succ fuel ih =>
    obtain _ | fuel' := fuel'
    · omega
    · refine (hend r).bind fun ended _ => ?_
      cases ended with
      | true => exact agrees_pure (by simp)
      | false =>
        refine (h r .refl).bind fun a ha => (hseparator r).bind fun separated _ => ?_
        cases separated with
        | true =>
          refine hS.agrees_weaken
            (Agrees.bind (hS.agrees_rebase (d := fun _ => false) fun r' hr' => ?_)
            fun as has => agrees_pure (List.forall_mem_cons.mpr ⟨ha, has⟩))
          have := hr'.2 rfl
          exact ih (fun r'' hr'' => h r'' (hr'.trans hr'')) (by omega) (by omega)
        | false => exact agrees_pure (by simpa using ha)

theorem agrees_items
    (h : ∀ r', Left r c r' → Agrees (S r' false) (fun _ => S r' false) E item item' P) :
    Agrees (S r c) (fun _ => S r c) E (items atEnd separator item) (items atEnd' separator' item')
      fun as => ∀ a ∈ as, P a :=
  hS.agrees_budget_bind fun _ _ _ hr' => hS.agrees_itemsWithin hend hseparator
    fun r'' hr'' => h r'' (hr'.keep hr'')

end

end Based

end Parsing

end IndicatorCompiler
