import IndicatorCompiler.Proofs.Annotations
import IndicatorCompiler.Proofs.ParserOutput

/-!
# Progress of parsers

A parser of nested phrases that succeeds has read some of the tokens that were left, and never goes
back.  So phrases are nested no deeper than there are tokens, and every round of a loop has a token
of its own.  Parsers are built here over any parsers `base` in place of those that refuse what is
nested too deep.  With as many levels as tokens `base` is never called: every call behind the last
level would need a token that is not there.  A loop is allowed as many rounds as its stream has
tokens, so end tokens behind the last one allow all loops more.
-/

namespace IndicatorCompiler

open Parsing (Left)

variable {σ ε τ α : Type} {E : ε → ε → Prop} {P : α → Prop}

/-- From a sound stream of fewer than `bound` tokens the parser reads at least one of them, and
leaves a sound stream with the last ones. -/
def Parsing.Advances (Sound : σ → Prop) (left : σ → List τ) (bound : Nat)
    (x : Parser σ ε α) : Prop :=
  ∀ s a s', Sound s → (left s).length < bound → x.run s = .ok (a, s') →
    Sound s' ∧ Left (left s) true (left s')

namespace Pine

/-- Reading goes on with the end behind the last token. -/
def Stream.Ends (s : Stream) : Prop := s.ending.kind = .eof

/-- The parser reads a token of fewer than `bound` that are left. -/
abbrev Advances (bound : Nat) (x : Parser α) : Prop :=
  Parsing.Advances Stream.Ends Stream.rest bound x

/-- All parsers of nested phrases read tokens of fewer than `bound`. -/
structure Nested.Advance (bound : Nat) (x : Nested) : Prop where
  type : Advances bound x.type
  unary : Advances bound x.unary
  expression : Advances bound x.expression
  value : Advances bound x.value
  statement : Advances bound x.statement

end Pine

/-! ## Scripts -/

namespace Script

/-- The tokens that are left can be those of a text, and reading goes on with the end behind
them. -/
def Stream.Ends (s : Stream) : Prop := (∀ t ∈ s.rest, t.kind.Valid) ∧ s.ending.kind = .eof

/-- The parser reads a token of fewer than `bound` that a text can have. -/
abbrev Advances (bound : Nat) (x : Parser α) : Prop :=
  Parsing.Advances Stream.Ends Stream.rest bound x

/-- All parsers of nested phrases read tokens of fewer than `bound`. -/
structure Nested.Advance (bound : Nat) (x : Nested) : Prop where
  bindingTarget : Advances bound x.bindingTarget
  unary : Advances bound x.unary
  binary (least : Nat) : Advances bound (x.binary least)
  assignment : Advances bound x.assignment
  expression : Advances bound x.expression
  statement : Advances bound x.statement

end Script

/-! ## Both languages -/

end IndicatorCompiler
