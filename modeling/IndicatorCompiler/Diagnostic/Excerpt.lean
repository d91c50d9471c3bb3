import IndicatorCompiler.Text.Cursor
import IndicatorCompiler.Text.Lines

/-!
# Source excerpts

An error message is followed by the line of source it is about and a caret under the column.
-/

namespace IndicatorCompiler.Diagnostic

open Text (Position)

/-- The line at a position with a caret under its column. -/
def excerpt (source : String) (p : Position) : String :=
  let line := ((Text.lines source.toList)[p.line - 1]?).getD []
  "   |\n" ++ Text.padLeft 3 (toString p.line) ++ " | " ++ String.ofList line ++ "\n   | " ++
    Text.repeated ' ' (p.column - 1) ++ "^"

/-- A message with an excerpt. -/
def withExcerpt (message source : String) (p : Position) : String :=
  message ++ "\n  --> line " ++ toString p.line ++ ":" ++ toString p.column ++ "\n" ++
    excerpt source p

/-- The report of a failed compilation of `file`; the excerpt stands where the error has a place. -/
def report (file message source : String) (location : Option Position) : String :=
  let head := "error: Failed to compile `" ++ file ++ "`\n\nerror: " ++ message ++ "\n"
  match location with
  | none => head
  | some p =>
    head ++ "  --> " ++ file ++ ":" ++ toString p.line ++ ":" ++ toString p.column ++ "\n" ++
      excerpt source p ++ "\n"

end IndicatorCompiler.Diagnostic
