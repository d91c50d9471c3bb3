/-!
# Rendered expressions

An expression is written as text together with the strength with which the text binds, so that
whoever uses it can tell whether it needs parentheses.
-/

namespace IndicatorCompiler.Text

/-- Text and how strongly it binds. -/
structure Rendered where
  text : String
  strength : Nat
  deriving DecidableEq, Repr

namespace Rendered

/-- The text in parentheses. -/
def enclosed (r : Rendered) : String := "(" ++ r.text ++ ")"

/-- The text, in parentheses if it binds weaker than `least`. -/
def within (r : Rendered) (least : Nat) : String :=
  if r.strength < least then r.enclosed else r.text

end Rendered

end IndicatorCompiler.Text
