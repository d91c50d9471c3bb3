/-!
# Sorted names

Sets of names are shown sorted by their characters, each name once.
-/

namespace IndicatorCompiler.Text

/-- The names in a list, sorted, each once. -/
def sorted (names : List String) : List String :=
  names.eraseDups.mergeSort fun a b => decide (a ≤ b)

end IndicatorCompiler.Text
