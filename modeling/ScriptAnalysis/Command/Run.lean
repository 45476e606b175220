import ScriptAnalysis.Command.Switches
import ScriptAnalysis.Diagnostic.Snippet
import ScriptAnalysis.Program.Outline
import ScriptAnalysis.Session.Console
import ScriptAnalysis.SourceUnit

/-!
# Commands

Each command reads a disk, writes to the two outputs and ends with a status: zero when all is well,
one when the source has errors, two when the command was not understood.
-/

namespace ScriptAnalysis

/-- What a command can see of the machine it runs on. -/
structure Host where
  disk : Disk
  palette : Text.Palette
  /-- The platform named in the version. -/
  platform : String
  input : List UInt8
  /-- The content of the history file, if there is one. -/
  history : Option (List UInt8)

/-- How a command ended, and the history file if it wrote one. -/
structure Outcome where
  status : Nat
  output : Output
  history : Option (List UInt8)

namespace Command

def ended (status : Nat) (output : Output) : Outcome := ⟨status, output, none⟩

def versionText (platform : String) : String := "nimblec v0.1.0-dev (" ++ platform ++ ")"

def usageText : String :=
  "nimblec: Nimble semantic analyzer\n" ++
  "\n" ++
  "Usage:\n" ++
  "  nimblec <command> [args]\n" ++
  "\n" ++
  "Commands:\n" ++
  "  version                                   Print version\n" ++
  "  help                                      Show this help\n" ++
  "  lex <file>                                Print the token stream of a .nim file\n" ++
  "  parse [--pretty] <file>                   Parse a .nim file and print the AST outline\n" ++
  "  check [--format=text|json] [--pretty] [--no-paren-errors] [--no-warnings] [--Werror] " ++
    "[--verbose] <file>\n" ++
  "                                            Analyze a .nim file and report semantic errors\n" ++
  "  types [--no-paren-errors] [--verbose] <file>\n" ++
  "                                            Print the inferred type of every expression\n" ++
  "  scopes [--verbose] <file>                 Print the scope tree built by the analyzer\n" ++
  "  repl                                      Interactive session; :help lists commands\n" ++
  "\n" ++
  "Notes:\n" ++
  "  - Flags may appear before or after the file.\n" ++
  "  - A file name without an extension is retried with .nim appended.\n" ++
  "  - Exit status: 0 clean, 1 errors found (or warnings with --Werror), 2 usage.\n"

/-- Ends a command that was misused with the line that says how it is used. -/
def misused (line : String) : Outcome := ended 2 (.ofStderr ("usage: nimblec " ++ line ++ "\n"))

/-! ## Tokens -/

def tokenLine (palette : Text.Palette) (t : Token) : String :=
  let place := Text.padRight 7 t.startPlace.text
  let shown := Text.padRight 8 t.kind.name ++ " " ++ Text.quote t.lexeme
  place ++ " " ++
    (match t.kind with
      | .eof => t.kind.name
      | .illegal => palette.paint .red shown
      | _ => shown) ++ "\n"

def lex (host : Host) (args : List String) : Outcome :=
  match Switches.parse [] args with
  | .error _ => misused "lex <file.nim>"
  | .ok switches =>
    let path := SourceUnit.resolve host.disk switches.file
    match host.disk.read path with
    | .error e => ended 1 (.ofStderr ("read " ++ path ++ ": " ++ e.message path ++ "\n"))
    | .ok text =>
      let tokens := Lexer.allTokens text
      let status := if tokens.any (·.kind = .illegal) then 1 else 0
      ended status (.ofStdout (String.join (tokens.map (tokenLine host.palette))))

/-! ## Programs -/

/-- What is written when a source cannot be loaded. A pretty syntax error shows its line. -/
def loadErrorText (palette : Text.Palette) (pretty : Bool) (error : LoadError) : String :=
  match pretty, error with
  | true, .malformed path text e => e.diagnostic.render path text
  | _, _ => palette.paint .red "error:" ++ " " ++ error.message ++ "\n"

/-- Loads the file of some switches and goes on with it. -/
def withUnit (host : Host) (switches : Switches) (pretty : Bool) (next : SourceUnit → Outcome) :
    Outcome :=
  match SourceUnit.load host.disk switches.file with
  | .error e => ended 1 (.ofStderr (loadErrorText host.palette pretty e))
  | .ok unit => next unit

def parse (host : Host) (args : List String) : Outcome :=
  match Switches.parse ["pretty"] args with
  | .error _ => misused "parse [--pretty] <file.nim>"
  | .ok switches =>
    withUnit host switches switches.pretty fun unit ↦ ended 0 (.ofStdout unit.script.outline)

/-! ## Analyses -/

/-- Analyzes a unit; a verbose analysis is traced before anything else is written. -/
def analyze (switches : Switches) (warnings : Bool) (unit : SourceUnit) : Report × Output :=
  let report := unit.script.analyze ⟨!switches.noParen, warnings⟩
  (report, .ofStderr (if switches.verbose then report.trace else ""))

def textReport (palette : Text.Palette) (pretty : Bool) (unit : SourceUnit) (r : Report) : Output :=
  let warnings := r.warnings.map fun w ↦ palette.paint .yellow "warning:" ++ " " ++ w.text ++ "\n"
  let errors := r.log.entries.map fun e ↦
    if pretty then e.render unit.path unit.text else e.text ++ "\n"
  let summary :=
    "summary: " ++ toString r.log.total ++ " error(s), " ++ toString r.warnings.length
      ++ " warning(s)\n"
  ⟨if r.isOk then unit.path ++ " " ++ palette.paint .green "ok" ++ "\n" else "",
    String.join warnings ++ String.join errors ++ summary⟩

def warningJson (w : Warning) : Text.Json :=
  .object
    [("line", .number w.span.start.line), ("col", .number w.span.start.col),
      ("code", .string w.code), ("message", .string w.message)]

def jsonReport (unit : SourceUnit) (r : Report) : Text.Json :=
  .object
    [("file", .string unit.path), ("ok", .bool r.isOk), ("errors", r.log.json),
      ("warnings", .array (r.warnings.map warningJson))]

def check (host : Host) (args : List String) : Outcome :=
  match Switches.parse
    ["format", "pretty", "no-paren-errors", "no-warnings", "Werror", "verbose"] args with
  | .error _ =>
    misused ("check [--format=text|json] [--pretty] [--no-paren-errors] [--no-warnings] " ++
      "[--Werror] [--verbose] <file.nim>")
  | .ok switches =>
    withUnit host switches switches.pretty fun unit ↦
      let (report, traced) := analyze switches (!switches.noWarn) unit
      let written := match switches.format with
        | .json => Output.ofStdout ((jsonReport unit report).indented 0 ++ "\n")
        | .text => textReport host.palette switches.pretty unit report
      let failed := !report.isOk || (switches.werror && !report.warnings.isEmpty)
      ended (if failed then 1 else 0) (traced ++ written)

def typeLine (t : Typed) : String :=
  Text.padRight 8 t.node.span.start.text ++ " " ++ Text.padRight 32 t.node.text ++ " " ++ t.type.text
    ++ "\n"

def types (host : Host) (args : List String) : Outcome :=
  match Switches.parse ["no-paren-errors", "verbose"] args with
  | .error _ => misused "types [--no-paren-errors] [--verbose] <file.nim>"
  | .ok switches =>
    withUnit host switches false fun unit ↦
      let (report, traced) := analyze switches false unit
      let listing := Output.ofStdout (String.join (report.types.entries.map typeLine))
      if report.isOk then ended 0 (traced ++ listing)
      else ended 1 (traced ++ listing ++ .ofStderr (report.log.text ++ "\n"))

def scopes (host : Host) (args : List String) : Outcome :=
  match Switches.parse ["verbose"] args with
  | .error _ => misused "scopes [--verbose] <file.nim>"
  | .ok switches =>
    withUnit host switches false fun unit ↦
      let (report, traced) := analyze switches false unit
      ended 0 (traced ++ .ofStdout (report.scopes.outline ScopeTable.globalId))

/-! ## The interactive session -/

def banner (platform : String) : String :=
  versionText platform ++ "\ntype :help for commands, :quit to exit\n"

def startConsole (history : Option (List UInt8)) : Console :=
  .initial ((history.map History.ofBytes).getD .empty)

def interact (host : Host) (args : List String) : Outcome :=
  if args.isEmpty then
    let lines := (inputLines host.input).map InputLine.bytes
    let (console, output) := (startConsole host.history).run host.palette lines
    ⟨0, .ofStdout (banner host.platform) ++ output, some console.history.bytes⟩
  else
    misused "repl"

/-! ## All commands -/

def run (host : Host) (args : List String) : Outcome :=
  match args with
  | [] => ended 2 (.ofStderr usageText)
  | command :: args =>
    match command with
    | "version" | "--version" | "-v" => ended 0 (.ofStdout (versionText host.platform ++ "\n"))
    | "help" | "--help" | "-h" => ended 0 (.ofStderr usageText)
    | "lex" => lex host args
    | "parse" => parse host args
    | "check" => check host args
    | "types" => types host args
    | "scopes" => scopes host args
    | "repl" => interact host args
    | _ => ended 2 (.ofStderr ("unknown command: " ++ command ++ "\n\n" ++ usageText))

end Command

end ScriptAnalysis
