import ScriptAnalysis.Analysis.Report
import ScriptAnalysis.Disk
import ScriptAnalysis.Program.Read

/-!
# Source units

A source unit is a file that was read as a program. A name without an extension is tried with the
extension of source files when there is no file of that name but one with the extension.
-/

namespace ScriptAnalysis

structure SourceUnit where
  path : String
  text : String
  script : Script Tag

inductive LoadError where
  | unreadable (path : String) (e : FileError)
  | malformed (path text : String) (e : SyntaxError)

/-- What was being done when loading failed. -/
def LoadError.doing : LoadError → String
  | unreadable path _ => "read " ++ Path.normalize path ++ ": "
  | malformed path _ _ => "parse " ++ Path.normalize path ++ ": "

def LoadError.message (error : LoadError) : String :=
  error.doing ++
    match error with
    | unreadable path e => e.message path
    | malformed _ _ e => e.diagnostic.text

namespace SourceUnit

def extension : String := ".nim"

/-- The path under which a source is looked for. -/
def resolve (disk : Disk) (path : String) : String :=
  if !Path.hasExtension path && !disk.isFile path && disk.isFile (path ++ extension) then
    path ++ extension
  else
    path

def load (disk : Disk) (path : String) : Except LoadError SourceUnit :=
  let path := resolve disk path
  match disk.read path with
  | .error e => .error (.unreadable path e)
  | .ok text =>
    match Script.parse text with
    | .error e => .error (.malformed path text e)
    | .ok script => .ok ⟨path, text, script⟩

end SourceUnit

end ScriptAnalysis
