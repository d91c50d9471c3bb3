/-!
# Names in lowered scripts

A lowered script is one arrow function over `context`.  The market series that it reads come out of
`context.data`, every other name that it does not bind out of `context.pine`.  Some words are names
in an indicator and reserved in a script; they get an underscore at the end.
-/

namespace IndicatorCompiler.Lowering

/-- The parameter of a lowered script. -/
def contextParam : String := "context"

/-- Market series, in the order in which they are taken off the context. -/
def dataSeries : List String :=
  ["open", "high", "low", "close", "volume", "hl2", "hlc3", "ohlc4", "hlcc4", "time", "time_close",
    "bar_index", "last_bar_index", "last_bar_time"]

/-- Names that every script has. -/
def hostGlobals : List String := ["NaN", "undefined", "Infinity", "Math"]

/-- Words that an indicator may use as names and a script may not. -/
def reservedWords : List String :=
  ["await", "case", "catch", "class", "debugger", "default", "delete", "do", "enum", "eval",
    "extends", "finally", "function", "implements", "instanceof", "interface", "let", "new", "null",
    "package", "private", "protected", "public", "return", "static", "super", "this",
    "throw", "try",
    "typeof", "void", "with", "yield", "arguments"]

/-- The name under which a script binds an indicator's name. -/
def bindingName (name : String) : String :=
  if name ∈ reservedWords then name ++ "_" else name

end IndicatorCompiler.Lowering
