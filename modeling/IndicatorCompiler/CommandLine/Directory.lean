import IndicatorCompiler.CommandLine.Run

/-!
# A directory of files

A directory is a finite list of files, whose names are paths relative to it.  It makes a host for a
run, and a run changes at most one of its files.
-/

namespace IndicatorCompiler.CommandLine

/-- Files by name. -/
structure Directory where
  files : List (String × ByteArray)

/-- Pieces of a text between slashes. -/
def slashPieces : List Char → List (List Char)
  | [] => [[]]
  | c :: rest =>
    match slashPieces rest with
    | [] => [[c]]
    | first :: more => if c = '/' then [] :: first :: more else (c :: first) :: more

/-- The parts of a path; a single point and an empty part say nothing. -/
def pathParts (path : String) : List String :=
  ((slashPieces path.toList).filter fun part => part ≠ [] ∧ part ≠ ['.']).map String.ofList

/-- The path ends with a slash, so it means a directory. -/
def endsWithSlash (path : String) : Bool := path.toList.getLast? == some '/'

/-- The fault of a path that goes on below a file. -/
def notDirectory : FileError := .other "Not a directory (os error 20)"

namespace Directory

/-- Some file stands in the directory with this path, at any depth. -/
def hasBelow (d : Directory) (parts : List String) : Bool :=
  d.files.any fun (name, _) => parts.isPrefixOf (pathParts name).dropLast

/-- The path is the directory itself, a directory above it or one that holds files. -/
def isDirectory (d : Directory) (parts : List String) : Bool :=
  parts.all (· == "..") || d.hasBelow parts

/-- The file with this path. -/
def file? (d : Directory) (parts : List String) : Option ByteArray :=
  (d.files.find? fun (name, _) => pathParts name == parts).map (·.2)

/-- The path goes on below a file. -/
def isBelowFile (d : Directory) (parts : List String) : Bool :=
  d.files.any fun (name, _) => (pathParts name).isPrefixOf parts

/-- The bytes at a path. -/
def bytes (d : Directory) (path : String) : Except FileError ByteArray :=
  let parts := pathParts path
  if path.isEmpty then .error .missing
  else match d.file? parts with
    | some bytes => if endsWithSlash path then .error notDirectory else .ok bytes
    | none =>
      if d.isDirectory parts then .error .isDirectory
      else if d.isBelowFile parts then .error notDirectory
      else .error .missing

/-- Why a path cannot be written: it is no file, or the directory that should hold it is missing. -/
def writeFault? (d : Directory) (path : String) : Option FileError :=
  match d.bytes path with
  | .ok _ => none
  | .error .missing =>
    if path.isEmpty then some .missing
    else if endsWithSlash path then some .isDirectory
    else if d.isDirectory (pathParts path).dropLast then none
    else some .missing
  | .error e => some e

/-- The directory as the system around a run. -/
def host (d : Directory) (stdin : String) : Host where
  content path := d.bytes path >>= decodeText
  stdin := .ok stdin
  writeFault? := d.writeFault?

/-- The file that an outcome creates or changes, with its new content. -/
def changedBy (d : Directory) (outcome : Outcome) : List (String × String) :=
  match outcome.written with
  | none => []
  | some (path, text) =>
    let parts := pathParts path
    if (d.file? parts).any (·.data == text.toUTF8.data) then []
    else [(Text.joinWith "/" parts, text)]

end Directory

end IndicatorCompiler.CommandLine
