import IndicatorCompiler.CommandLine.Usage

/-!
# Invocations

Arguments are read from left to right; the first one that is wrong, or that asks for help, decides.
What only all of them together can get wrong is looked at last.
-/

namespace IndicatorCompiler.CommandLine

/-- What is printed. -/
inductive Emit where
  | code | stage1 | tokens | tree
  deriving DecidableEq, Repr

/-- What the command line asks for. -/
structure Invocation where
  /-- A file, or `-` for standard input. -/
  input : String
  /-- The file to write; without one the result is printed. -/
  output : Option String
  emit : Emit
  lineNumbers : Bool
  options : CompileOptions
  deriving DecidableEq, Repr

/-- What is wrong with the arguments. -/
inductive UsageError where
  | extraInput (arg : String)
  | unknownOption (name : String)
  | missingValue (name placeholder : String)
  | unexpectedValue (name : String)
  | severalEmits
  | severalLanguages
  | invalidVersion (value : String)
  | missingInput
  | noArtifacts
  deriving DecidableEq, Repr

/-- The fault in words. -/
def UsageError.text : UsageError → String
  | extraInput arg => "unexpected extra input '" ++ arg ++ "'"
  | unknownOption name => "unknown option '" ++ name ++ "'"
  | missingValue name placeholder => name ++ " expects " ++ placeholder
  | unexpectedValue name => name ++ " does not take a value"
  | severalEmits => "only one --emit-* option may be given"
  | severalLanguages => "--pine and --script are mutually exclusive"
  | invalidVersion value => "--expect-version expects a number, got '" ++ value ++ "'"
  | missingInput => "missing input file"
  | noArtifacts => "--script input has no indicator-language artifacts"

/-- What the arguments read so far say. -/
structure Settings where
  input : Option String
  output : Option String
  emit : Option Emit
  language : Option Language
  expectedVersion : Option Nat
  lineNumbers : Bool
  deriving DecidableEq, Repr

namespace Settings

/-- No argument has been read. -/
def initial : Settings := ⟨none, none, none, none, none, false⟩

/-- Ask for what is printed. -/
def withEmit (s : Settings) (emit : Emit) : Except UsageError Settings :=
  if s.emit.any (· ≠ emit) then .error .severalEmits else .ok { s with emit := some emit }

/-- Ask for a language. -/
def withLanguage (s : Settings) (language : Language) : Except UsageError Settings :=
  if s.language.any (· ≠ language) then .error .severalLanguages
  else .ok { s with language := some language }

/-- A version as it is written: digits, with a plus sign or without. -/
def versionNumber? (text : List Char) : Option Nat :=
  match text with
  | '+' :: digits | digits => Version.number? digits

/-- Ask for a version. -/
def withVersion (s : Settings) (value : String) : Except UsageError Settings :=
  match versionNumber? value.toList with
  | some version => .ok { s with expectedVersion := some version }
  | none => .error (.invalidVersion value)

/-- Name the input. -/
def withInput (s : Settings) (arg : String) : Except UsageError Settings :=
  if s.input.isSome then .error (.extraInput arg) else .ok { s with input := some arg }

/-- Take a flag into account; nothing is left to do if it asks for help. -/
def withFlag (s : Settings) (flag : Flag) (value : String) :
    Except UsageError (Option Settings) :=
  match flag with
  | .help => .ok none
  | .emitStage1 => some <$> s.withEmit .stage1
  | .emitTokens => some <$> s.withEmit .tokens
  | .emitTree => some <$> s.withEmit .tree
  | .pine => some <$> s.withLanguage .pine
  | .script => some <$> s.withLanguage .script
  | .debug => .ok (some s)
  | .lineNumbers => .ok (some { s with lineNumbers := true })
  | .expectVersion => some <$> s.withVersion value
  | .output => .ok (some { s with output := some value })

/-- The invocation that all arguments together ask for. -/
def invocation (s : Settings) : Except UsageError Invocation := do
  let some input := s.input | throw .missingInput
  let emit := s.emit.getD .code
  let language := s.language.getD .auto
  if emit ≠ .code && language = .script then throw .noArtifacts
  return ⟨input, s.output, emit, s.lineNumbers, ⟨language, s.expectedVersion⟩⟩

end Settings

/-- The argument names an input. -/
def isInput (arg : String) : Bool := arg == "-" || !Text.beginsWith '-' arg

/-- A flag and the value joined to it by `=`. -/
def splitValue (arg : String) : String × Option String :=
  let name := arg.toList.takeWhile (· != '=')
  match arg.toList.drop name.length with
  | [] => (arg, none)
  | _ :: value => (String.ofList name, some (String.ofList value))

/-- Read arguments; nothing if one asks for help. -/
def readArgs (s : Settings) : List String → Except UsageError (Option Settings)
  | [] => .ok (some s)
  | arg :: rest =>
    if isInput arg then
      match s.withInput arg with
      | .error e => .error e
      | .ok s => readArgs s rest
    else
      let (name, inline) := splitValue arg
      match flag? name with
      | none => .error (.unknownOption name)
      | some entry =>
        match entry.value, inline with
        | none, some _ => .error (.unexpectedValue entry.name)
        | none, none =>
          match s.withFlag entry.flag "" with
          | .error e => .error e
          | .ok none => .ok none
          | .ok (some s) => readArgs s rest
        | some _, some value =>
          match s.withFlag entry.flag value with
          | .error e => .error e
          | .ok none => .ok none
          | .ok (some s) => readArgs s rest
        | some placeholder, none =>
          match rest with
          | [] => .error (.missingValue entry.name placeholder)
          | value :: rest =>
            match s.withFlag entry.flag value with
            | .error e => .error e
            | .ok none => .ok none
            | .ok (some s) => readArgs s rest

/-- The invocation that arguments ask for; nothing if they ask for help. -/
def parseArgs (args : List String) : Except UsageError (Option Invocation) := do
  match ← readArgs .initial args with
  | none => return none
  | some settings => return some (← settings.invocation)

end IndicatorCompiler.CommandLine
