import IndicatorCompiler.Scope

/-!
# Slots of different variables

The name of a slot tells the scope and the variable: the letters of the stem end at the first digit,
the number ends at the underscore after it, and the variable is what is left.  So two variables
never share a slot, whichever scopes they live in.
-/

namespace IndicatorCompiler

/-- Two texts that are split where a property first fails, or at their ends, are split alike. -/
theorem append_inj_of_head {α : Type} {p : α → Prop} {a b s t : List α} (ha : ∀ c ∈ a, p c)
    (hb : ∀ c ∈ b, p c) (hs : ∀ c ∈ s.head?, ¬ p c) (ht : ∀ c ∈ t.head?, ¬ p c)
    (h : a ++ s = b ++ t) : a = b ∧ s = t := by
  induction a generalizing b with
  | nil =>
    cases b with
    | nil => exact ⟨rfl, h⟩
    | cons d b =>
      have hd : d ∈ s.head? := by simp [show s = d :: (b ++ t) from h]
      exact absurd (hb d (by simp)) (hs d hd)
  | cons c a ih =>
    cases b with
    | nil =>
      have hc : c ∈ t.head? := by simp [show t = c :: (a ++ s) from h.symm]
      exact absurd (ha c (by simp)) (ht c hc)
    | cons d b =>
      rw [List.cons_append, List.cons_append, List.cons.injEq] at h
      obtain ⟨rfl, h⟩ := h
      obtain ⟨rfl, hrest⟩ :=
        ih (fun c hc => ha c (by simp [hc])) (fun c hc => hb c (by simp [hc])) h
      exact ⟨rfl, hrest⟩

theorem isDigit_of_mem_toDigits {n} : ∀ c ∈ Nat.toDigits 10 n, c.isDigit := fun _ hc =>
  Nat.isDigit_of_mem_toDigits (by decide) (by decide) hc

/-- A stem without digits ends where the number behind it starts. -/
theorem stem_append_inj {a b s t : List Char} {m n} (ha : ∀ c ∈ a, ¬ c.isDigit)
    (hb : ∀ c ∈ b, ¬ c.isDigit)
    (h : a ++ (Nat.toDigits 10 m ++ s) = b ++ (Nat.toDigits 10 n ++ t)) :
    a = b ∧ Nat.toDigits 10 m ++ s = Nat.toDigits 10 n ++ t := by
  have hhead (k : Nat) (u : List Char) : ∀ c ∈ (Nat.toDigits 10 k ++ u).head?, ¬ ¬ c.isDigit := by
    obtain ⟨d, ds, hk⟩ := List.exists_cons_of_ne_nil (Nat.toDigits_ne_nil (b := 10) (n := k))
    intro c hc
    obtain rfl : d = c := by simpa [hk] using hc
    exact not_not_intro (isDigit_of_mem_toDigits (n := k) d (by simp [hk]))
  exact append_inj_of_head ha hb (hhead m s) (hhead n t) h

theorem toDigits_ten_injective {m n} (h : Nat.toDigits 10 m = Nat.toDigits 10 n) : m = n := by
  rw [← Nat.ofDigitChars_ten_toDigits (n := m), h, Nat.ofDigitChars_ten_toDigits]

/-- A number ends where no digit follows. -/
theorem toDigits_append_inj {s t : List Char} {m n} (hs : ∀ c ∈ s.head?, ¬ c.isDigit)
    (ht : ∀ c ∈ t.head?, ¬ c.isDigit) (h : Nat.toDigits 10 m ++ s = Nat.toDigits 10 n ++ t) :
    m = n ∧ s = t := by
  obtain ⟨hmn, hrest⟩ := append_inj_of_head isDigit_of_mem_toDigits isDigit_of_mem_toDigits hs ht h
  exact ⟨toDigits_ten_injective hmn, hrest⟩

theorem ScopeKind.stem_no_digit (k : ScopeKind) : ∀ c ∈ k.stem.toList, ¬ c.isDigit := by
  cases k <;> simp [ScopeKind.stem]

theorem ScopeKind.stem_injective : Function.Injective ScopeKind.stem := by
  intro a b h
  cases a <;> cases b <;> first | rfl | exact absurd h (by decide)

theorem Scope.toList_slotName (s : Scope) (x : String) : (s.slotName x).toList =
      s.kind.stem.toList ++ (Nat.toDigits 10 s.number ++ '_' :: x.toList) := by
  simp [Scope.slotName]

/-- The slot of a variable tells its scope and its name. -/
theorem Scope.slotName_inj {s t : Scope} {x y} (h : s.slotName x = t.slotName y) :
    s.kind = t.kind ∧ s.number = t.number ∧ x = y := by
  have h := congrArg String.toList h
  rw [toList_slotName, toList_slotName] at h
  obtain ⟨hstem, h⟩ := stem_append_inj s.kind.stem_no_digit t.kind.stem_no_digit h
  obtain ⟨hnumber, hname⟩ := toDigits_append_inj (by simp) (by simp) h
  rw [List.cons.injEq] at hname
  exact ⟨ScopeKind.stem_injective (String.toList_injective hstem), hnumber,
    String.toList_injective hname.2⟩

/-- A slot never has the name of its variable. -/
theorem Scope.slotName_ne (s : Scope) (x : String) : s.slotName x ≠ x := by
  intro h
  have hlen := congrArg (List.length ∘ String.toList) h
  rw [Function.comp_apply, Function.comp_apply, toList_slotName] at hlen
  simp only [List.length_append, List.length_cons] at hlen
  omega

end IndicatorCompiler
