/-!
# Successful steps

Parsers and walks are steps that carry a state and can fail.  `Succeeds x s a s'` says that the step
`x` succeeds from `s` with the result `a` and leaves `s'`.  Each way of building a step has one
equivalence, so that a step is taken apart, or put together, into its parts.
-/

namespace IndicatorCompiler

variable {σ ε α β : Type} {a : α} {s s' : σ} {x : StateT σ (Except ε) α} {b : β}

/-- A result with a property that can be computed is there. -/
theorem eq_ok_of_any {x : Except ε α} {p : α → Bool} (h : x.toOption.any p = true) :
    ∃ a, x = .ok a ∧ p a = true := by
  cases x with
  | error e => cases h
  | ok a => exact ⟨a, rfl, h⟩

/-- The characters of a text that is written in pieces. -/
theorem toList_append_of {s : String} {cs ds : List Char} (h : s.toList = cs) :
    (s ++ .ofList ds).toList = cs ++ ds := by
  rw [String.toList_append, h, String.toList_ofList]

/-- The step succeeds. -/
def Succeeds (x : StateT σ (Except ε) α) (s : σ) (a : α) (s' : σ) : Prop := x s = .ok (a, s')

@[simp] theorem succeeds_pure_iff {b} :
    Succeeds (pure a : StateT σ (Except ε) α) s b s' ↔ b = a ∧ s' = s := by
  show Except.ok (a, s) = .ok (b, s') ↔ _
  rw [Except.ok.injEq, Prod.mk.injEq]
  exact and_congr eq_comm eq_comm

@[simp] theorem succeeds_bind_iff {f : α → StateT σ (Except ε) β} {s''} :
    Succeeds (x >>= f) s b s'' ↔ ∃ a s', Succeeds x s a s' ∧ Succeeds (f a) s' b s'' := by
  show (x s >>= fun p => f p.1 p.2) = .ok (b, s'') ↔ _
  unfold Succeeds
  cases x s with
  | error e => simp [bind, Except.bind]
  | ok p => simp [bind, Except.bind, Prod.ext_iff, and_assoc]

@[simp] theorem succeeds_map_iff {f : α → β} :
    Succeeds (f <$> x) s b s' ↔ ∃ a, Succeeds x s a s' ∧ b = f a := by
  rw [map_eq_pure_bind, succeeds_bind_iff]
  simp only [succeeds_pure_iff]
  constructor
  · rintro ⟨a, _, hx, rfl, rfl⟩
    exact ⟨a, hx, rfl⟩
  · rintro ⟨a, hx, rfl⟩
    exact ⟨a, s', hx, rfl, rfl⟩

@[simp] theorem succeeds_throw_iff {e} : Succeeds (throw e : StateT σ (Except ε) α) s a s' ↔
    False := by
  simp [Succeeds, throw, throwThe, MonadExceptOf.throw, StateT.lift, bind, Except.bind]

/-- A step has at most one result. -/
theorem Succeeds.unique {s₁ s₂ b} (h₁ : Succeeds x s a s₁) (h₂ : Succeeds x s b s₂) :
    a = b ∧ s₁ = s₂ := by
  have h := h₁.symm.trans h₂
  simpa using h

/-- A step with a known result can be left out. -/
theorem Succeeds.bind_iff {f : α → StateT σ (Except ε) β} {s₁} (h : Succeeds x s a s₁) :
    Succeeds (x >>= f) s b s' ↔ Succeeds (f a) s₁ b s' := by
  rw [succeeds_bind_iff]
  constructor
  · rintro ⟨a', s₂, hx, hf⟩
    obtain ⟨rfl, rfl⟩ := h.unique hx
    exact hf
  · exact fun hf => ⟨a, s₁, h, hf⟩

/-! ## Access to the state -/

@[simp] theorem succeeds_get_iff {a} :
    Succeeds (get : StateT σ (Except ε) σ) s a s' ↔ a = s ∧ s' = s := by
  simp only [Succeeds, get, getThe, MonadStateOf.get, StateT.get, pure, Except.pure,
    Except.ok.injEq, Prod.mk.injEq]
  exact and_congr eq_comm eq_comm

@[simp] theorem succeeds_set_iff {v a} : Succeeds (set v : StateT σ (Except ε) PUnit) s a s' ↔
    s' = v := by
  show Except.ok (⟨⟩, v) = .ok (a, s') ↔ _
  rw [Except.ok.injEq, Prod.mk.injEq]
  exact ⟨fun h => h.2.symm, fun h => ⟨rfl, h.symm⟩⟩

@[simp] theorem succeeds_modifyGet_iff {f : σ → α × σ} :
    Succeeds (modifyGet f : StateT σ (Except ε) α) s a s' ↔ a = (f s).1 ∧ s' = (f s).2 := by
  simp only [Succeeds, modifyGet, MonadStateOf.modifyGet, StateT.modifyGet, pure, Except.pure,
    Except.ok.injEq, Prod.ext_iff]
  exact and_congr eq_comm eq_comm

@[simp] theorem succeeds_modify_iff {f : σ → σ} {a} :
    Succeeds (modify f : StateT σ (Except ε) PUnit) s a s' ↔ s' = f s := by
  show Succeeds (modifyGet fun s => (⟨⟩, f s) : StateT σ (Except ε) PUnit) s a s' ↔ _
  simp

@[simp high] theorem succeeds_get_bind_iff {f : σ → StateT σ (Except ε) β} :
    Succeeds ((get : StateT σ (Except ε) σ) >>= f) s b s' ↔ Succeeds (f s) s b s' :=
  Succeeds.bind_iff (by simp)

@[simp high] theorem succeeds_set_bind_iff {v} {f : PUnit → StateT σ (Except ε) β} :
    Succeeds ((set v : StateT σ (Except ε) PUnit) >>= f) s b s' ↔ Succeeds (f ⟨⟩) v b s' :=
  Succeeds.bind_iff (by simp)

@[simp high] theorem succeeds_modify_bind_iff {g : σ → σ} {f : PUnit → StateT σ (Except ε) β} :
    Succeeds ((modify g : StateT σ (Except ε) PUnit) >>= f) s b s' ↔ Succeeds (f ⟨⟩) (g s) b s' :=
  Succeeds.bind_iff (by simp)

/-! ## What steps yield

There is one rule for each way of building a step, so that what a step can return is shown along its
definition. -/

variable {I : σ → Prop} {P : α → Prop} {Q : β → Prop}

/-- From states with `I` the step leads to such states, and to results with `P`. -/
def Yields (I : σ → Prop) (x : StateT σ (Except ε) α) (P : α → Prop) : Prop :=
  ∀ ⦃s : σ⦄ ⦃a : α⦄ ⦃s' : σ⦄, I s → Succeeds x s a s' → I s' ∧ P a

theorem Yields.mono {P' : α → Prop} {x : StateT σ (Except ε) α} (h : Yields I x P)
    (hP : ∀ a, P a → P' a) : Yields I x P' :=
  fun _ _ _ hs hx => (h hs hx).imp_right (hP _)

theorem yields_pure {a} (h : P a) : Yields I (pure a : StateT σ (Except ε) α) P := by
  intro s b s' hs hx
  obtain ⟨rfl, rfl⟩ := succeeds_pure_iff.mp hx
  exact ⟨hs, h⟩

theorem Yields.bind {x} {f : α → StateT σ (Except ε) β} (h : Yields I x P)
    (hf : ∀ a, P a → Yields I (f a) Q) : Yields I (x >>= f) Q := by
  intro s b s'' hs hx
  obtain ⟨a, s', hx, hf'⟩ := succeeds_bind_iff.mp hx
  obtain ⟨hs', ha⟩ := h hs hx
  exact hf a ha hs' hf'

theorem yields_throw {e} : Yields I (throw e : StateT σ (Except ε) α) P :=
  fun _ _ _ _ hx => (succeeds_throw_iff.mp hx).elim

theorem yields_get : Yields I (get : StateT σ (Except ε) σ) I := by
  intro s a s' hs hx
  obtain ⟨rfl, rfl⟩ := succeeds_get_iff.mp hx
  exact ⟨hs, hs⟩

end IndicatorCompiler
