import IndicatorCompiler.Compile

/-!
# Usage of the command line

One table of flags serves both for reading arguments and for the help text.
-/

namespace IndicatorCompiler.CommandLine

/-- Flags of the command line. -/
inductive Flag where
  | emitStage1 | emitTokens | emitTree
  | debug | lineNumbers
  | pine | script
  | expectVersion
  | output
  | help
  deriving DecidableEq, Repr

/-- How a flag is written and what it does. -/
structure FlagEntry where
  flag : Flag
  name : String
  aliases : List String
  /-- What the help text calls the value of a flag that takes one. -/
  value : Option String
  description : String
  deriving DecidableEq, Repr

/-- Every flag, in the order of the help text. -/
def flags : List FlagEntry :=
  [⟨.emitStage1, "--emit-stage1", [], none, "Print the Stage-1 script instead of the final code"⟩,
    ⟨.emitTokens, "--emit-tokens", [], none, "Print the indicator-language token stream"⟩,
    ⟨.emitTree, "--emit-ast", [], none, "Dump the indicator-language AST"⟩,
    ⟨.debug, "--debug", ["-d"], none, "Log pipeline stages and the compiled listing to stderr"⟩,
    ⟨.lineNumbers, "--line-numbers", ["-n"], none, "Number the lines of the printed code"⟩,
    ⟨.pine, "--pine", [], none, "Treat the input as indicator source (pragma required)"⟩,
    ⟨.script, "--script", [], none, "Treat the input as a script and skip Stage 1"⟩,
    ⟨.expectVersion, "--expect-version", [], some "<n>",
      "Reject sources whose pragma names another version"⟩,
    ⟨.output, "--output", ["-o"], some "<file>", "Write the result to a file instead of stdout"⟩,
    ⟨.help, "--help", ["-h"], none, "Show this help message"⟩]

/-- The flag with a name. -/
def flag? (name : String) : Option FlagEntry :=
  flags.find? fun entry => entry.name == name || entry.aliases.contains name

/-- A flag in the help text. -/
def FlagEntry.usage (entry : FlagEntry) : String :=
  let label := Text.joinWith ", " (entry.aliases ++ [entry.name])
  let label := match entry.value with
    | some value => label ++ " " ++ value
    | none => label
  Text.indentation 1 ++ Text.padRight 35 label ++ entry.description ++ "\n"

/-- The help text. -/
def usage : String :=
  "pinec - indicator language to context-script compiler\n\nUSAGE:\n    pinec <file> [OPTIONS]\n" ++
    "    pinec - [OPTIONS]          Read the source from stdin\n\nOPTIONS:\n" ++
    Text.joinWith "" (flags.map (·.usage)) ++
    "\nEXIT CODES:\n    0  success\n" ++
    "    1  rejected input (version, syntax or entry-point errors)\n    2  usage error\n" ++
    "    3  internal compiler error\n\n" ++
    "Set RUST_LOG to control logging, e.g. RUST_LOG=pine_transpiler=trace\n"

end IndicatorCompiler.CommandLine
