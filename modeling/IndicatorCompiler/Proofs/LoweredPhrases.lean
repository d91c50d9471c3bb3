import IndicatorCompiler.Lowering.Program
import IndicatorCompiler.Proofs.Leaves

/-!
# Phrases of lowered scripts

The names that a lowered script has are words, those of the indicator as well as generated ones.
They are bound one by one or several in brackets, and a value that needs statements is a function
that is called on the spot.
-/

namespace IndicatorCompiler.Lowering

open Pine

/-- A text that binds names: one name, or several in brackets. -/
inductive Binder : List String → String → Prop
  | name {y} (h : isWord y = true) : Binder [y] y
  | tuple {ys} (h : ∀ y ∈ ys, isWord y = true) : Binder ys (tupleText ys)

/-- A value as a function that is called on the spot. -/
def calledText (level : Nat) (body : List Emitted) : String :=
  "(() => \x7b\n" ++ Emitted.layoutAll (level + 1) body ++ Text.indentation level ++ "\x7d)()"

theorem isWord_bindingName {n} (h : isWord n = true) : isWord (bindingName n) = true := by
  unfold bindingName
  split
  · unfold isWord at h ⊢
    cases hn : n.toList with
    | nil => simp [hn] at h
    | cons c rest =>
      simp only [hn, Bool.and_eq_true] at h
      simp [String.toList_append, hn, h, continuesName]
  · exact h

theorem isWord_switchName (k : Nat) : isWord (switchStem ++ toString k) = true := by
  have hdigit (c : Char) (hc : c ∈ Nat.toDigits 10 k) : continuesName c = true := by
    simp [continuesName, Char.isAlphanum, Nat.isDigit_of_mem_toDigits (by decide) (by decide) hc]
  simp only [isWord, switchStem, String.toList_append, Nat.toString_eq_repr, Nat.toList_repr]
  simpa [startsName, continuesName] using hdigit

end IndicatorCompiler.Lowering
