import IndicatorCompiler.Text.Lines

/-!
# Outlines of trees

An outline shows a tree over many lines: the children of a node stand on lines of their own, four
blanks further in, each with a comma after it.  Records name their children, tuples and lists do
not.
-/

namespace IndicatorCompiler.Text

mutual
/-- A tree to be shown. -/
inductive Outline where
  /-- A value shown on one line. -/
  | leaf (text : String)
  /-- A named record. -/
  | record (name : String) (fields : List OutlineField)
  /-- A named tuple. -/
  | tuple (name : String) (items : List Outline)
  /-- A list. -/
  | list (items : List Outline)

/-- A labelled child of a record. -/
structure OutlineField where
  label : String
  value : Outline
end

namespace Outline

mutual
/-- `text`, continued by a tree whose first line stands at `level`. -/
def write (level : Nat) (text : String) : Outline → String
  | .leaf shown => text ++ shown
  | .record name fields =>
    writeFields (level + 1) (text ++ name ++ " \x7b\n") fields ++ indentation level ++ "\x7d"
  | .tuple name items =>
    writeItems (level + 1) (text ++ name ++ "(\n") items ++ indentation level ++ ")"
  | .list [] => text ++ "[]"
  | .list items => writeItems (level + 1) (text ++ "[\n") items ++ indentation level ++ "]"

/-- `text`, continued by the lines of labelled children. -/
def writeFields (level : Nat) (text : String) : List OutlineField → String
  | [] => text
  | ⟨label, value⟩ :: rest =>
    let shown := write level (text ++ indentation level ++ label ++ ": ") value
    writeFields level (shown ++ ",\n") rest

/-- `text`, continued by the lines of unlabelled children. -/
def writeItems (level : Nat) (text : String) : List Outline → String
  | [] => text
  | item :: rest =>
    writeItems level (write level (text ++ indentation level) item ++ ",\n") rest
end

/-- The lines of a tree. -/
def render (tree : Outline) : String := write 0 "" tree

/-- An optional child: a tuple `Some` of one, or `None`. -/
def optional : Option Outline → Outline
  | none => .leaf "None"
  | some value => .tuple "Some" [value]

/-- A truth value. -/
def ofBool (b : Bool) : Outline := .leaf (if b then "true" else "false")

/-- A count. -/
def ofNat (n : Nat) : Outline := .leaf (toString n)

end Outline

end IndicatorCompiler.Text
