import ScriptAnalysis.Analysis.Report
import ScriptAnalysis.Program.Read
import ScriptAnalysis.Scope.Outline

/-!
# Sessions

A session grows one program from pieces of input. Functions, variable declarations and statements
are kept apart, so that the program they make up has the order a program needs. A bare expression is
answered with its type and not kept; any other piece is kept only if the program with it is valid.
-/

namespace ScriptAnalysis

structure Session where
  funcs : List String
  vars : List String
  stmts : List String
  options : Options

/-- Why a piece of input was not taken. -/
inductive Refusal where
  | malformed (e : SyntaxError)
  | invalid (entries : List Entry)

def Refusal.message : Refusal → String
  | malformed e => e.diagnostic.text
  | invalid entries =>
    "\n".intercalate (entries.map fun e ↦
      e.category.name ++ ": " ++ e.message ++ "  (" ++ e.source ++ ")")

/-- Whether a source stops in the middle of a construct, read as a program and as an expression. -/
def isIncomplete (source : String) : Bool :=
  match Script.parse source, Expr.parse source with
  | .error asScript, .error asExpr => asScript.isIncomplete || asExpr.isIncomplete
  | _, _ => false

namespace Session

def initial : Session := ⟨[], [], [], ⟨true, false⟩⟩

variable (s : Session)

def reset : Session := { s with funcs := [], vars := [], stmts := [] }

/-- The program that the pieces make up, one piece after the other. -/
def source : String := "\n".intercalate (s.funcs ++ s.vars ++ s.stmts)

/-- The session with one more piece, put where its first token says it belongs. -/
def extend (piece : String) : Session :=
  match Lexer.firstKind piece with
  | .funcWord => { s with funcs := s.funcs ++ [piece] }
  | .varWord => { s with vars := s.vars ++ [piece] }
  | _ => { s with stmts := s.stmts ++ [piece] }

def analyze : Except SyntaxError (Script Tag × Report) :=
  (Script.parse s.source).map fun script ↦ (script, script.analyze s.options)

/-- The value that the last statement of a program prints, and the text of that statement. -/
def lastPrinted? (script : Script Tag) : Option (Expr Tag × String) :=
  match script.main.bind (·.block.stmts.getLast?) with
  | some (.print note value) => some (value, note.text)
  | _ => none

/-- The type of an expression, found by printing it at the end of the program. That it cannot be
printed is no cause of its own and is left out of a refusal. -/
def typeOf (e : String) : Except Refusal String :=
  match { s with stmts := s.stmts ++ ["print " ++ e] }.analyze with
  | .error e => .error (.malformed e)
  | .ok (script, report) =>
    match lastPrinted? script with
    | none => .ok ""
    | some (value, text) =>
      let causes := report.log.entries.filter fun e ↦
        !(e.category = .unprintableExpression && e.source = text)
      if causes.isEmpty then .ok (((report.types.get? value.note.id).map Ty.text).getD "")
      else .error (.invalid causes)

/-- Takes one piece of input: the session after it, and the answer or why it was refused. -/
def eval (input : String) : Session × Except Refusal String :=
  let piece := Text.trim input
  if piece = "" then (s, .ok "")
  else if (Expr.parse piece).isOk then (s, s.typeOf piece)
  else
    let extended := s.extend piece
    match extended.analyze with
    | .error e => (s, .error (.malformed e))
    | .ok (_, report) =>
      if report.isOk then (extended, .ok "ok") else (s, .error (.invalid report.log.entries))

end Session

end ScriptAnalysis
