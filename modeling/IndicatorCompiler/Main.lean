import IndicatorCompiler.CommandLine.Run

/-!
# The command

The outer layer: it reads what an invocation names, and carries out the outcome.
-/

namespace IndicatorCompiler.CommandLine

/-- The fault behind a failed file operation. -/
def fileError : IO.Error → FileError
  | .noFileOrDirectory .. => .missing
  | .inappropriateType .. => .isDirectory
  | e => .other (toString e)

/-- The source that an invocation names. -/
def readSource (input : String) : IO (Except FileError String) := do
  try
    let bytes ← if input = "-" then (← IO.getStdin).readBinToEnd else IO.FS.readBinFile input
    return decodeText bytes
  catch e => return .error (fileError e)

/-- Print and write what an outcome says; a file that cannot be written changes the outcome. -/
def carryOut (outcome : Outcome) : IO UInt32 := do
  match outcome.written with
  | none =>
    IO.print outcome.stdout
    IO.eprint outcome.stderr
    return outcome.exitCode.toUInt32
  | some (file, text) =>
    try
      IO.FS.writeFile file text
      return outcome.exitCode.toUInt32
    catch e =>
      let fault := writeFault file (fileError e)
      IO.eprint fault.stderr
      return fault.exitCode.toUInt32

end IndicatorCompiler.CommandLine

open IndicatorCompiler.CommandLine in
/-- Compile what the arguments name. -/
def main (args : List String) : IO UInt32 := do
  match start args with
  | .finished outcome => carryOut outcome
  | .run invocation =>
    let source ← readSource invocation.input
    let host : Host := ⟨fun _ => source, source, fun _ => none⟩
    carryOut (runInvocation host invocation)
