import IndicatorCompiler.NormalForm
import IndicatorCompiler.Survey.Entry
import IndicatorCompiler.Survey.Names
import IndicatorCompiler.Text.Sorted

/-!
# Survey of a unit

Everything that the slot form of a unit starts from: the normal form of its body, and scopes that
know the unit's names.
-/

namespace IndicatorCompiler.Survey

open Script

/-- Why a script cannot be surveyed. -/
inductive SurveyError where
  | entry (e : EntryError)
  | normal (e : NormalForm.NormalError)
  deriving DecidableEq, Repr

/-- A surveyed unit. -/
structure Surveyed where
  /-- The spelling of the context parameter. -/
  rootName : String
  /-- The body in normal form. -/
  body : List Stmt
  scopes : Scopes
  /-- Functions that the unit declares. -/
  functions : List String
  /-- Parameters of functions. -/
  parameters : List String
  /-- Names taken off the context. -/
  contextBound : List String

/-- Scopes that know the names of a body. -/
def knownScopes (rootName : String) (uses : List NameUse) (contextBound : List String) : Scopes :=
  let s := Scopes.ofRoot rootName
  let s := (uses.map (·.name)).foldl Scopes.reserve s
  let s := (uses.filterMap (·.function?)).foldl Scopes.addUserFunction s
  contextBound.foldl Scopes.markContextBound s

/-- Survey a script. -/
def survey (program : Program) : Except SurveyError Surveyed :=
  match entry program with
  | .error e => .error (.entry e)
  | .ok ⟨rootName, body⟩ =>
    let uses := namesInStmts body
    let contextBound := contextNames rootName body
    match NormalForm.normalBody body (knownScopes rootName uses contextBound) with
    | .error e => .error (.normal e)
    | .ok (body, scopes) => .ok {
        rootName := rootName
        body := body
        scopes := scopes
        functions := Text.sorted (uses.filterMap (·.function?))
        parameters := Text.sorted (uses.filterMap (·.parameter?))
        contextBound := Text.sorted contextBound }

end IndicatorCompiler.Survey
