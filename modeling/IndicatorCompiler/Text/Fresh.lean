/-!
# Numbered names

Generated names are a stem followed by a number.  `numbered` takes the first number, from a counter
on, whose name is not taken, and returns the counter after it.  A counter never goes back, so one
stem never gives the same name twice.
-/

namespace IndicatorCompiler.Text

/-- The first of `stem ++ start`, `stem ++ (start + 1)`, … that is not in `taken`, and the number
after it.  Among `budget + 1` different names one is free as soon as `budget` is at least the number
of taken names. -/
def numberedWithin (taken : List String) (stem : String) : (budget : Nat) → Nat → String × Nat
  | 0, start => (stem ++ toString start, start + 1)
  | budget + 1, start =>
    let name := stem ++ toString start
    if name ∈ taken then numberedWithin taken stem budget (start + 1) else (name, start + 1)

/-- The first numbered name from `start` on that is not taken, and the number after it. -/
def numbered (taken : List String) (stem : String) (start : Nat) : String × Nat :=
  numberedWithin taken stem taken.length start

/-- The counter moves on with every name. -/
theorem lt_numberedWithin (taken : List String) (stem : String) (budget start : Nat) :
    start < (numberedWithin taken stem budget start).2 := by
  induction budget generalizing start with
  | zero => simp [numberedWithin]
  | succ budget ih =>
    simp only [numberedWithin]
    split
    · exact Nat.lt_trans (Nat.lt_succ_self start) (ih (start + 1))
    · simp

theorem lt_numbered (taken : List String) (stem : String) (start : Nat) :
    start < (numbered taken stem start).2 :=
  lt_numberedWithin taken stem taken.length start

end IndicatorCompiler.Text
