import Mathlib.Data.List.Nodup
import Mathlib.Data.List.Perm.Subperm
import IndicatorCompiler.Proofs.SlotName
import IndicatorCompiler.SlotForm.Call

/-!
# Generated names

A numbered name is never one of the names to be avoided, and it tells its stem and its number apart,
since no stem has a digit.
-/

namespace IndicatorCompiler

namespace Text

/-- A stem without digits, and the number behind it, are told by the name. -/
theorem numbered_inj {stem stem' : String} {m n : Nat} (hs : ∀ c ∈ stem.toList, ¬ c.isDigit)
    (hs' : ∀ c ∈ stem'.toList, ¬ c.isDigit) (h : stem ++ toString m = stem' ++ toString n) :
    stem = stem' ∧ m = n := by
  have h := congrArg String.toList h
  simp only [String.toList_append, Nat.toString_eq_ofList_toDigits, String.toList_ofList] at h
  rw [← List.append_nil (Nat.toDigits 10 m), ← List.append_nil (Nat.toDigits 10 n)] at h
  obtain ⟨hstem, hnumber⟩ := stem_append_inj hs hs' h
  exact ⟨String.toList_injective hstem, (toDigits_append_inj (by simp) (by simp) hnumber).1⟩

theorem append_toString_inj {stem : String} {m n : Nat}
    (h : stem ++ toString m = stem ++ toString n) : m = n := by
  have h := congrArg String.toList h
  rw [String.toList_append, String.toList_append, List.append_cancel_left_eq] at h
  exact (@numbered_inj "" "" m n (by simp) (by simp) (String.toList_injective (by simpa using h))).2

/-- If the name that is found is taken, so are all that were tried. -/
theorem mem_of_numberedWithin_mem {taken stem budget start}
    (h : (numberedWithin taken stem budget start).1 ∈ taken) {k} (hk : k ≤ budget) :
    stem ++ toString (start + k) ∈ taken := by
  induction budget generalizing start k with
  | zero =>
    obtain rfl : k = 0 := by omega
    exact h
  | succ budget ih =>
    simp only [numberedWithin] at h
    split at h
    · rename_i hstart
      cases k with
      | zero => exact hstart
      | succ k =>
        have hrest := ih h (k := k) (by omega)
        rwa [show start + 1 + k = start + (k + 1) by omega] at hrest
    · rename_i hstart
      exact absurd h hstart

theorem numberedWithin_eq (taken : List String) (stem : String) (budget start : Nat) :
    ∃ n, start ≤ n ∧ numberedWithin taken stem budget start = (stem ++ toString n, n + 1) := by
  induction budget generalizing start with
  | zero => exact ⟨start, Nat.le_refl _, rfl⟩
  | succ budget ih =>
    simp only [numberedWithin]
    split
    · obtain ⟨n, hn, heq⟩ := ih (start + 1)
      exact ⟨n, by omega, heq⟩
    · exact ⟨start, Nat.le_refl _, rfl⟩

/-- The name that is found has a number from the counter on, and is not taken. -/
theorem numbered_eq (taken : List String) (stem : String) (start : Nat) :
    ∃ n, start ≤ n ∧ numbered taken stem start = (stem ++ toString n, n + 1) ∧
      stem ++ toString n ∉ taken := by
  obtain ⟨n, hn, heq⟩ := numberedWithin_eq taken stem taken.length start
  refine ⟨n, hn, heq, fun hmem => ?_⟩
  -- otherwise more names would be taken than there are
  have hall : ∀ k ≤ taken.length, stem ++ toString (start + k) ∈ taken := fun k hk =>
    mem_of_numberedWithin_mem (by rw [heq]; exact hmem) hk
  have hnodup :
      ((List.range (taken.length + 1)).map fun k => stem ++ toString (start + k)).Nodup := by
    refine List.Nodup.map (fun a b hab => ?_) List.nodup_range
    have := append_toString_inj hab
    omega
  have hsub :
      ((List.range (taken.length + 1)).map fun k => stem ++ toString (start + k)) ⊆ taken := by
    intro name hname
    obtain ⟨k, hk, rfl⟩ := List.mem_map.mp hname
    exact hall k (Nat.lt_succ_iff.mp (List.mem_range.mp hk))
  have hlength := (List.Nodup.subperm hnodup hsub).length_le
  simp only [List.length_map, List.length_range] at hlength
  omega

/-- Every name that was passed over is taken. -/
theorem mem_of_lt_numberedWithin {taken stem budget start n} (hn : start ≤ n)
    (hlt : n + 1 < (numberedWithin taken stem budget start).2) : stem ++ toString n ∈ taken := by
  induction budget generalizing start with
  | zero =>
    simp only [numberedWithin] at hlt
    omega
  | succ budget ih =>
    simp only [numberedWithin] at hlt
    split at hlt
    · rename_i hstart
      obtain rfl | hne := Nat.eq_or_lt_of_le hn
      · exact hstart
      · exact ih hne hlt
    · omega

theorem mem_of_lt_numbered {taken stem start n} (hn : start ≤ n)
    (hlt : n + 1 < (numbered taken stem start).2) : stem ++ toString n ∈ taken :=
  mem_of_lt_numberedWithin hn hlt

end Text

namespace SlotForm

/-! ## The names that slot forms insert -/

/-- The name of a capture. -/
def captureName (n : Nat) : String := "p" ++ toString n

/-- The name of a temporary. -/
def tempName (n : Nat) : String := "_tmp" ++ toString n

/-- What identities of calls are named after. -/
def callStems : List String := userCallStem :: statefulLibraries

/-- The identity of a call. -/
def callId (stem : String) (n : Nat) : String := "_" ++ stem ++ toString n

theorem captureName_inj {m n : Nat} (h : captureName m = captureName n) : m = n :=
  (Text.numbered_inj (by simp) (by simp) h).2

theorem tempName_inj {m n : Nat} (h : tempName m = tempName n) : m = n :=
  (Text.numbered_inj (by simp) (by simp) h).2

/-- A name without digits is no capture. -/
theorem ne_captureName {x} (h : ∀ c ∈ x.toList, ¬ c.isDigit) (n : Nat) : x ≠ captureName n := by
  rintro rfl
  obtain ⟨d, ds, hd⟩ := List.exists_cons_of_ne_nil (Nat.toDigits_ne_nil (b := 10) (n := n))
  have hdigit : d.isDigit := isDigit_of_mem_toDigits (n := n) d (by simp [hd])
  exact h d (by simp [captureName, hd]) hdigit

theorem tempName_ne_captureName (m n : Nat) : tempName m ≠ captureName n := by
  intro h
  exact absurd (Text.numbered_inj (by simp) (by simp) h).1 (by decide)

theorem callStem_no_digit {stem} (h : stem ∈ callStems) :
    ∀ c ∈ ("_" ++ stem).toList, ¬ c.isDigit := by
  simp only [callStems, SlotForm.statefulLibraries, SlotForm.userCallStem, List.mem_cons,
    List.not_mem_nil, or_false] at h
  rcases h with rfl | rfl | rfl | rfl | rfl | rfl | rfl | rfl | rfl | rfl | rfl | rfl <;> simp

theorem callId_inj {stem stem' : String} {m n : Nat} (hs : stem ∈ callStems)
    (hs' : stem' ∈ callStems) (h : callId stem m = callId stem' n) : m = n :=
  (Text.numbered_inj (callStem_no_digit hs) (callStem_no_digit hs') h).2

theorem callId_ne_captureName {stem : String} (hs : stem ∈ callStems) (m n : Nat) :
    callId stem m ≠ captureName n := by
  intro h
  have hstem := (Text.numbered_inj (callStem_no_digit hs) (by simp) h).1
  have hhead : "_".toList.head? = "p".toList.head? := by simpa using congrArg (·.toList.head?) hstem
  exact absurd hhead (by decide)

/-! ## Names that scopes hand out -/

/-- The kinds of names that slot forms declare. -/
inductive Supply where
  | temps | captures
  deriving DecidableEq, Repr

namespace Supply

/-- The stem of the names. -/
def stem : Supply → String
  | temps => "_tmp"
  | captures => "p"

/-- The name with a number. -/
def name : Supply → Nat → String
  | temps => tempName
  | captures => captureName

/-- The counter of the names. -/
def next : Supply → Scopes → Nat
  | temps, s => s.nextTemp
  | captures, s => s.nextParam

/-- The scopes hand out a name. -/
def take : Supply → Scopes → String × Scopes
  | temps => Scopes.generateTemp
  | captures => Scopes.generateParam

theorem name_eq (k : Supply) (n : Nat) : k.name n = k.stem ++ toString n := by cases k <;> rfl

theorem take_fst (k : Supply) (s : Scopes) :
    (k.take s).1 = (Text.numbered s.reserved k.stem (k.next s)).1 := by
  cases k <;> rfl

theorem reserved_take (k : Supply) (s : Scopes) : (k.take s).2.reserved = s.reserved := by
  cases k <;> rfl

theorem next_take (j k : Supply) (s : Scopes) : j.next (k.take s).2 =
    if j = k then (Text.numbered s.reserved k.stem (k.next s)).2 else j.next s := by
  cases j <;> cases k <;> rfl

end Supply

/-- Names that scopes hand out on the way from one state to another; no counter moves without a
name. -/
inductive HandsOut : Scopes → List String → Scopes → Prop where
  | nothing {s s'} (hreserved : s'.reserved = s.reserved)
      (hnext : ∀ k : Supply, k.next s' = k.next s) : HandsOut s [] s'
  | name (k : Supply) (s : Scopes) : HandsOut s [(k.take s).1] (k.take s).2
  | trans {s s' s'' a b} (h : HandsOut s a s') (h' : HandsOut s' b s'') : HandsOut s (a ++ b) s''

namespace HandsOut

variable {s s' : Scopes} {names : List String}

theorem reserved (h : HandsOut s names s') : s'.reserved = s.reserved := by
  induction h with
  | nothing hreserved _ => exact hreserved
  | name k s => exact k.reserved_take s
  | trans _ _ ih ih' => exact ih'.trans ih

theorem next_le (h : HandsOut s names s') (k : Supply) : k.next s ≤ k.next s' := by
  induction h with
  | nothing _ hnext => exact Nat.le_of_eq (hnext k).symm
  | name j s =>
    rw [Supply.next_take]
    split
    · rename_i hkj
      subst hkj
      exact Nat.le_of_lt (Text.lt_numbered _ _ _)
    · exact Nat.le_refl _
  | trans _ _ ih ih' => exact Nat.le_trans ih ih'

/-- The names that are handed out are those that the counters move past, but for the reserved
ones. -/
theorem mem_iff (h : HandsOut s names s') {x} :
    x ∈ names ↔ ∃ (k : Supply) (n : Nat), x = k.name n ∧ k.next s ≤ n ∧ n < k.next s' ∧
      x ∉ s.reserved := by
  induction h with
  | nothing _ hnext =>
    simp only [List.not_mem_nil, false_iff, not_exists, not_and]
    intro k n _ hlow hhigh
    have := hnext k
    omega
  | name j s =>
    obtain ⟨m, hm, heq, hfresh⟩ := Text.numbered_eq s.reserved j.stem (j.next s)
    have htake : (j.take s).1 = j.name m := by rw [j.take_fst, heq, j.name_eq]
    rw [← j.name_eq] at hfresh
    simp only [List.mem_singleton, htake, Supply.next_take]
    constructor
    · rintro rfl
      exact ⟨j, m, rfl, hm, by simp [heq], hfresh⟩
    · rintro ⟨k, n, rfl, hlow, hhigh, hn⟩
      split at hhigh
      · rename_i hkj
        subst hkj
        -- a number that was passed over is reserved
        have hle : n ≤ m := by
          rw [heq] at hhigh
          exact Nat.lt_succ_iff.mp hhigh
        obtain rfl | hlt := Nat.eq_or_lt_of_le hle
        · rfl
        · refine absurd ?_ hn
          rw [k.name_eq]
          exact Text.mem_of_lt_numbered hlow (by rw [heq]; exact Nat.succ_lt_succ hlt)
      · omega
  | @trans s s' s'' a b h h' ih ih' =>
    rw [List.mem_append, ih, ih', h.reserved]
    have hle := h.next_le
    have hle' := h'.next_le
    constructor
    · rintro (⟨k, n, rfl, hlow, hhigh, hn⟩ | ⟨k, n, rfl, hlow, hhigh, hn⟩)
      · exact ⟨k, n, rfl, hlow, Nat.lt_of_lt_of_le hhigh (hle' k), hn⟩
      · exact ⟨k, n, rfl, Nat.le_trans (hle k) hlow, hhigh, hn⟩
    · rintro ⟨k, n, rfl, hlow, hhigh, hn⟩
      rcases Nat.lt_or_ge n (k.next s') with hmid | hmid
      · exact .inl ⟨k, n, rfl, hlow, hmid, hn⟩
      · exact .inr ⟨k, n, rfl, hmid, hhigh, hn⟩

end HandsOut

end SlotForm

end IndicatorCompiler
