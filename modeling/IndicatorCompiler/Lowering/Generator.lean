import IndicatorCompiler.Lowering.Declared
import IndicatorCompiler.Lowering.Emitted
import IndicatorCompiler.Lowering.Name
import IndicatorCompiler.Text.Fresh
import IndicatorCompiler.Text.Sorted

/-!
# The state of lowering

Lowering carries the statements emitted so far, the names that are declared, and the names that are
referred to; from the last two follows what has to be taken off the context.  The state outlives a
program, so that several programs can be lowered in one session.
-/

namespace IndicatorCompiler.Lowering

/-- The state of lowering. -/
structure Generator where
  /-- Statements emitted into the block that is being filled. -/
  output : List Emitted
  /-- The indentation level of that block. -/
  level : Nat
  /-- Names that the script binds, at any depth. -/
  declared : List String
  /-- Names of methods. -/
  methods : List String
  /-- Names that are read or written. -/
  referenced : List String
  /-- The number for the next generated name. -/
  fresh : Nat

/-- Nothing has been lowered. -/
def Generator.initial : Generator := ⟨[], 0, [], [], [], 0⟩

/-- A step of lowering. -/
abbrev Gen := StateM Generator

/-- Emit a statement. -/
def emit (stmt : Emitted) : Gen Unit :=
  modify fun g => { g with output := g.output ++ [stmt] }

/-- Refer to a name; the result is the name that the script binds for it. -/
def reference (name : String) : Gen String := do
  modify fun g => { g with referenced := name :: g.referenced }
  return bindingName name

/-- Refer to names. -/
def references (names : List String) : Gen (List String) := names.mapM reference

/-- A numbered name that nothing declares.  It is declared from then on. -/
def freshName (stem : String) : Gen String := do
  let g ← get
  let (name, next) := Text.numbered g.declared stem g.fresh
  set { g with declared := name :: g.declared, fresh := next }
  return name

/-- The statements that a step emits, one level further in; they are not emitted here. -/
def block (body : Gen Unit) : Gen (List Emitted) := do
  let outer ← get
  set { outer with output := [], level := outer.level + 1 }
  body
  let inner ← get
  set { inner with output := outer.output, level := inner.level - 1 }
  return inner.output

/-- The declared names and methods grow by those of a program. -/
def declare (names : List Declared) : Gen Unit :=
  modify fun g =>
    { g with
      declared := names.map (·.name) ++ g.declared
      methods := (names.filter (·.method)).map (·.name) ++ g.methods }

/-! ## Names from the context -/

namespace Generator

/-- Names that are referred to and neither declared nor part of every script; sorted, each once. -/
def freeNames (g : Generator) : List String :=
  Text.sorted (g.referenced.filter fun name =>
    !g.declared.contains name && !hostGlobals.contains name)

/-- The market series among the free names. -/
def freeSeries (g : Generator) : List String := dataSeries.filter g.freeNames.contains

/-- The other free names, as the script binds them. -/
def freeLibrary (g : Generator) : List String :=
  (g.freeNames.filter fun name => !dataSeries.contains name).map bindingName

end Generator

end IndicatorCompiler.Lowering
