import IndicatorCompiler.Declaration
import IndicatorCompiler.Lowering.Program
import IndicatorCompiler.Pine.Program
import IndicatorCompiler.SlotForm.Tree
import IndicatorCompiler.Script.Program
import IndicatorCompiler.Survey
import IndicatorCompiler.Version

/-!
# Compilation

Indicator source is lowered to a script; a script is surveyed and brought into slot form, so that
all persistent state goes through the context.  Source without a version pragma is taken for a
script already.

A failure is either a fault of the source, which its author can mend, or an internal error: a script
that came out of lowering is at fault, or a pass broke off.
-/

namespace IndicatorCompiler

/-- What a source is taken for. -/
inductive Language where
  /-- Indicator source if it has a version pragma, else a script. -/
  | auto
  /-- Indicator source; it must have a pragma. -/
  | pine
  /-- A script, whatever its comments say. -/
  | script
  deriving DecidableEq, Repr

/-- How to compile. -/
structure CompileOptions where
  language : Language
  /-- The version that pragmas have to name. -/
  expectedVersion : Option Nat
  deriving DecidableEq, Repr

/-- A compiled unit. -/
structure Compiled where
  /-- The script in slot form: one arrow function of the context. -/
  code : String
  /-- The script that indicator source was lowered to. -/
  lowered : Option String
  version : Option Nat
  declaration : Option Declaration.UnitDeclaration
  deriving DecidableEq

/-! ## Failures -/

/-- A failure that is not the fault of the source. -/
inductive InternalError where
  /-- The lowered script cannot be read. -/
  | loweredScript (e : Script.SyntaxError)
  /-- The lowered script is no unit. -/
  | loweredEntry (e : Survey.EntryError)
  | normal (e : NormalForm.NormalError)
  | slotForm (e : SlotForm.SlottingError)
  deriving DecidableEq

namespace InternalError

/-- The pass that broke off. -/
def pass : InternalError → String
  | loweredScript _ | loweredEntry _ => "stage1"
  | normal _ => "normalization"
  | slotForm e => e.cause.pass

/-- The node that the pass was at. -/
def node : InternalError → String
  | loweredScript _ => "output"
  | loweredEntry _ => "entry"
  | normal e => e.node
  | slotForm e => SlotForm.pathText e.ancestors

/-- What went wrong there. -/
def detail : InternalError → String
  | loweredScript e => e.message
  | loweredEntry e => e.text
  | normal e => e.text
  | slotForm e => e.cause.text

/-- The failure in words. -/
def message (e : InternalError) : String :=
  "internal error in " ++ e.pass ++ " pass at " ++ e.node ++ ": " ++ e.detail

end InternalError

/-- Why a source does not compile. -/
inductive CompileError where
  | version (e : Version.VersionError)
  | pine (e : Pine.SyntaxError)
  | script (e : Script.SyntaxError)
  | entry (e : Survey.EntryError)
  | internal (e : InternalError)
  deriving DecidableEq

namespace CompileError

/-- The failure in words. -/
def message : CompileError → String
  | version e | pine e | script e => e.message
  | entry e => "invalid entry point: " ++ e.text
  | internal e => e.message

/-- The failure is not the fault of the source. -/
def isInternal : CompileError → Bool
  | internal _ => true
  | _ => false

/-- The place in the source that the failure is about. -/
def location? : CompileError → Option Text.Position
  | version e => e.line?.map fun line => ⟨line, 1⟩
  | pine e | script e => some e.position
  | entry _ => none
  | internal _ => none

/-- A survey that failed; lowering answers for the entry function of its script. -/
def ofSurvey (lowered : Bool) : Survey.SurveyError → CompileError
  | .entry e => if lowered then internal (.loweredEntry e) else entry e
  | .normal e => internal (.normal e)

/-- A script that cannot be read; lowering answers for its own. -/
def ofScript (lowered : Bool) (e : Script.SyntaxError) : CompileError :=
  if lowered then internal (.loweredScript e) else script e

end CompileError

/-! ## The stages -/

/-- The version that a source names. -/
def sourceVersion (source : String) (options : CompileOptions) :
    Except CompileError (Option Nat) :=
  match options.language with
  | .script => .ok none
  | _ => (Version.resolve options.expectedVersion (Version.pragmas source)).mapError .version

/-- The lowered script of a source, if the source has to be lowered. -/
def loweredScript? (source : String) (language : Language) (version : Option Nat) :
    Except CompileError (Option String) := do
  match language, version with
  | .script, _ | .auto, none => return none
  | .pine, none => throw (.version .missing)
  | _, some _ =>
    let program ← (Pine.Program.ofSource source).mapError .pine
    return some (Lowering.lower program)

/-- The script in slot form and the declaration of its unit. -/
def compileScript (text : String) (lowered : Bool) :
    Except CompileError (String × Option Declaration.UnitDeclaration) := do
  let script ← (Script.Program.ofSource text).mapError (.ofScript lowered)
  let surveyed ← (Survey.survey script).mapError (.ofSurvey lowered)
  let declaration := Declaration.find? surveyed.body
  let unit ← (SlotForm.slotUnit surveyed.body surveyed.scopes).mapError
    fun e => .internal (.slotForm e)
  return (unit.print, declaration)

/-- Compile a source. -/
def compile (source : String) (options : CompileOptions) : Except CompileError Compiled := do
  let version ← sourceVersion source options
  let lowered ← loweredScript? source options.language version
  let (code, declaration) ← compileScript (lowered.getD source) lowered.isSome
  return ⟨code, lowered, version, declaration⟩

/-! ## Listings -/

/-- Lines with their numbers, from `start` on, in a column of a width. -/
def numberedLines (width start : Nat) : List (List Char) → String
  | [] => ""
  | line :: rest =>
    Text.padLeft width (toString start) ++ " | " ++ String.ofList line ++ "\n" ++
      numberedLines width (start + 1) rest

/-- The compiled code, with line numbers if they are wanted. -/
def Compiled.listing (compiled : Compiled) (lineNumbers : Bool) : String :=
  if lineNumbers then
    let lines := Text.lines compiled.code.toList
    numberedLines (toString lines.length).length 1 lines
  else compiled.code

end IndicatorCompiler
