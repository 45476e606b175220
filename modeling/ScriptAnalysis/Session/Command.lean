import ScriptAnalysis.Session
import ScriptAnalysis.Text.Colour

/-!
# Commands to a session

A command begins with a colon and may be written in either case. It can end the session, forget or
show its program, or list the commands.
-/

namespace ScriptAnalysis

/-- Text written to the two outputs of a program. -/
structure Output where
  stdout : String
  stderr : String

namespace Output

def none : Output := ⟨"", ""⟩

def ofStdout (text : String) : Output := ⟨text, ""⟩

def ofStderr (text : String) : Output := ⟨"", text⟩

def append (a b : Output) : Output := ⟨a.stdout ++ b.stdout, a.stderr ++ b.stderr⟩

instance : Append Output := ⟨append⟩

end Output

/-- The lower case of a character, as far as that is an ASCII letter. Two characters outside of ASCII
have one too: the capital I with a dot and the sign for kelvin. -/
def lowerCase (c : Char) : Char :=
  if c = '\u0130' then 'i' else if c = '\u212a' then 'k' else c.toLower

namespace Session

inductive Command where
  | quit
  | reset
  | source
  | scopes
  | help

def Command.ofText? (text : String) : Option Command :=
  match String.ofList (text.toList.map lowerCase) with
  | ":quit" | ":q" => some quit
  | ":reset" => some reset
  | ":source" => some source
  | ":scopes" => some scopes
  | ":help" => some help
  | _ => none

def helpText : String :=
  "  <expr>      show the type of an expression\n" ++
  "  <program>   add functions, var declarations or statements\n" ++
  "  :source     print the accumulated program\n" ++
  "  :scopes     print the scope tree of the accumulated program\n" ++
  "  :reset      forget everything entered so far\n" ++
  "  :quit       exit\n"

/-- Runs a command: the session after it, what is written, and whether the session ends. -/
def command (palette : Text.Palette) (s : Session) (text : String) : Session × Output × Bool :=
  match Command.ofText? text with
  | some .quit => (s, .none, true)
  | some .reset => (s.reset, .ofStdout "session cleared\n", false)
  | some .source => (s, .ofStdout (s.source ++ "\n"), false)
  | some .scopes =>
    match s.analyze with
    | .error e => (s, .ofStderr (palette.paint .red e.diagnostic.text ++ "\n"), false)
    | .ok (_, report) => (s, .ofStdout (report.scopes.outline ScopeTable.globalId), false)
  | some .help => (s, .ofStdout helpText, false)
  | none => (s, .ofStdout "unknown command. Type :help for a list.\n", false)

end Session

end ScriptAnalysis
