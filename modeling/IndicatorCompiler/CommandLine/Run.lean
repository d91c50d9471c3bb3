import IndicatorCompiler.CommandLine.Invocation
import IndicatorCompiler.Diagnostic.Excerpt
import IndicatorCompiler.Pine.Syntax.Outline

/-!
# Running the compiler

A run is a function of its arguments, of the files and of standard input.  Everything that it does
is its outcome: what it prints, the file that it writes and its exit code.
-/

namespace IndicatorCompiler.CommandLine

/-! ## Outcomes -/

/-- What a run does. -/
structure Outcome where
  exitCode : Nat
  stdout : String
  stderr : String
  /-- The file that is written, with its content. -/
  written : Option (String × String)
  deriving DecidableEq, Repr

namespace Outcome

/-- The source is at fault. -/
def rejected (stderr : String) : Outcome := ⟨1, "", stderr, none⟩

/-- The arguments or the files are at fault. -/
def usageFault (stderr : String) : Outcome := ⟨2, "", stderr, none⟩

/-- The compiler is at fault. -/
def internalFault (stderr : String) : Outcome := ⟨3, "", stderr, none⟩

end Outcome

/-- Why a file cannot be read or written. -/
inductive FileError where
  | missing
  | isDirectory
  /-- The bytes are no text. -/
  | invalidText
  | other (text : String)
  deriving DecidableEq, Repr

/-- The fault in the words of the system. -/
def FileError.text : FileError → String
  | missing => "No such file or directory (os error 2)"
  | isDirectory => "Is a directory (os error 21)"
  | invalidText => "stream did not contain valid UTF-8"
  | other text => text

/-- The text that bytes encode. -/
def decodeText (bytes : ByteArray) : Except FileError String :=
  match String.fromUTF8? bytes with
  | some text => .ok text
  | none => .error .invalidText

/-! ## Stages of a run -/

/-- What the arguments lead to before anything is read. -/
inductive Start where
  /-- The run is over. -/
  | finished (outcome : Outcome)
  | run (invocation : Invocation)
  deriving DecidableEq, Repr

/-- Look at the arguments.  Without any, the help text is the fault. -/
def start (args : List String) : Start :=
  if args.isEmpty then .finished (.usageFault usage)
  else match parseArgs args with
    | .error e =>
      .finished (.usageFault ("error: " ++ e.text ++ "\n\nRun `pinec --help` for usage.\n"))
    | .ok none => .finished ⟨0, "", usage, none⟩
    | .ok (some invocation) => .run invocation

/-- The report of a failed compilation. -/
def compileFault (file source : String) (e : CompileError) : Outcome :=
  if e.isInternal then
    .internalFault ("error: internal compiler error while compiling `" ++ file ++ "`\n\n" ++
      e.message ++ "\n\nThis is a bug; please report it with the input that triggered it.\n")
  else .rejected (Diagnostic.report file e.message source e.location?)

/-- A listing of tokens, one a line. -/
def tokenListing (tokens : List Pine.Token) : String :=
  Text.joinWith "" (tokens.map fun t =>
    toString t.position.line ++ ":" ++ toString t.position.column ++ " " ++ t.kind.listing ++ "\n")

/-- A text that ends its last line. -/
def endLine (text : String) : String :=
  if text.toList.getLast? = some '\n' then text else text ++ "\n"

/-- What an invocation prints or writes for a source, or the outcome of its failure. -/
def produce (invocation : Invocation) (source : String) : Except Outcome String :=
  let file := invocation.input
  match invocation.emit with
  | .tokens =>
    match Pine.scan source with
    | .ok tokens => .ok (tokenListing tokens)
    | .error e => .error (.rejected (Diagnostic.report file e.detail source (some e.position)))
  | .tree =>
    match Pine.Program.ofSource source with
    | .ok program => .ok (program.outline.render ++ "\n")
    | .error e => .error (.rejected (Diagnostic.report file e.message source (some e.position)))
  | .stage1 =>
    match compile source invocation.options with
    | .error e => .error (compileFault file source e)
    | .ok compiled =>
      match compiled.lowered with
      | some text => .ok text
      | none =>
        .error (.usageFault ("error: `" ++ file ++
          "` was compiled as a script; it has no Stage-1 output\n"))
  | .code =>
    match compile source invocation.options with
    | .error e => .error (compileFault file source e)
    | .ok compiled => .ok (endLine (compiled.listing invocation.lineNumbers))

/-- The outcome of an input that cannot be read. -/
def readFault (file : String) (e : FileError) : Outcome :=
  .usageFault ("error: failed to read '" ++ file ++ "': " ++ e.text ++ "\n")

/-- The outcome of a result that cannot be written. -/
def writeFault (file : String) (e : FileError) : Outcome :=
  .rejected ("error: failed to write '" ++ file ++ "': " ++ e.text ++ "\n")

/-- The outcome of a result that is printed or written. -/
def success (output : Option String) (text : String) : Outcome :=
  match output with
  | none => ⟨0, text, "", none⟩
  | some file => ⟨0, "", "", some (file, text)⟩

/-! ## Whole runs -/

/-- The system around a run. -/
structure Host where
  /-- The text of a file. -/
  content : String → Except FileError String
  stdin : Except FileError String
  /-- Why a file cannot be written, if so. -/
  writeFault? : String → Option FileError

/-- The source of an invocation. -/
def Host.source (host : Host) (input : String) : Except FileError String :=
  if input = "-" then host.stdin else host.content input

/-- Run an invocation. -/
def runInvocation (host : Host) (invocation : Invocation) : Outcome :=
  match host.source invocation.input with
  | .error e => readFault invocation.input e
  | .ok source =>
    match produce invocation source with
    | .error outcome => outcome
    | .ok text =>
      match invocation.output.bind fun file => (host.writeFault? file).map fun e => (file, e) with
      | some (file, e) => writeFault file e
      | none => success invocation.output text

/-- Run the compiler. -/
def run (host : Host) (args : List String) : Outcome :=
  match start args with
  | .finished outcome => outcome
  | .run invocation => runInvocation host invocation

end IndicatorCompiler.CommandLine
