/-!
# Repetition in parsers

A parser reads from a stream and returns a value or fails.  The parsers of both languages repeat
steps that each read at least one token, so the number of tokens left bounds every repetition.
-/

namespace IndicatorCompiler.Parsing

/-- Streams that know how many tokens are left. -/
class Remaining (σ : Type) where
  remaining : σ → Nat

/-- A parser over streams `σ` that fails with `ε`. -/
abbrev Parser (σ ε : Type) := StateT σ (Except ε)

variable {σ ε α : Type}

/-- Read with `step` as long as it gives values, at most `fuel` times. -/
def repeatWithin (step : Parser σ ε (Option α)) : (fuel : Nat) → Parser σ ε (List α)
  | 0 => return []
  | fuel + 1 => do
    match ← step with
    | none => return []
    | some a => return a :: (← repeatWithin step fuel)

/-- Items with separators between them up to an end, at most `fuel` of them. -/
def itemsWithin (atEnd separator : Parser σ ε Bool) (item : Parser σ ε α) :
    (fuel : Nat) → Parser σ ε (List α)
  | 0 => return []
  | fuel + 1 => do
    if ← atEnd then return []
    let a ← item
    if ← separator then return a :: (← itemsWithin atEnd separator item fuel)
    return [a]

/-- What `parser` reads, or nothing if it fails, and then nothing is read. -/
def attempt (parser : Parser σ ε (Option α)) : Parser σ ε (Option α) := do
  let saved ← get
  let result ← tryCatch parser fun _ => return none
  if result.isNone then set saved
  return result

variable [Remaining σ]

/-- A bound for the steps that the tokens left allow. -/
def budget : Parser σ ε Nat := return Remaining.remaining (← get) + 1

/-- Read with `step` as long as it gives values.  Most repetitions are empty, so tokens are counted
only after the first value. -/
def repeated (step : Parser σ ε (Option α)) : Parser σ ε (List α) := do
  match ← step with
  | none => return []
  | some a => return a :: (← repeatWithin step (← budget))

/-- Items with separators between them up to an end, which is not read.  A separator may stand after
the last item. -/
def items (atEnd separator : Parser σ ε Bool) (item : Parser σ ε α) : Parser σ ε (List α) := do
  itemsWithin atEnd separator item (← budget)

/-- At least one item, with separators between them. -/
def itemsOne (separator : Parser σ ε Bool) (item : Parser σ ε α) : Parser σ ε (List α) := do
  let first ← item
  let more ← repeated do
    if ← separator then return some (← item)
    return none
  return first :: more

end IndicatorCompiler.Parsing
