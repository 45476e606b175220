import ScriptAnalysis.Analysis.Violation
import ScriptAnalysis.Diagnostic.Log
import ScriptAnalysis.Diagnostic.Message
import ScriptAnalysis.Program.Extent
import ScriptAnalysis.Scope

/-!
# Events of an analysis

An analysis walks over a program twice, first to declare its scopes and then to infer its types.
Each walk is told as a list of events in the order in which they happen. The log, the table of
types, the warnings and the trace are all read off these events. A walk that cannot go on ends with
a fault.
-/

namespace ScriptAnalysis

inductive Pass where
  | declaring
  | inferring
  deriving DecidableEq

def Pass.number : Pass → Nat
  | .declaring => 1
  | .inferring => 2

inductive Event where
  | entered (pass : Pass) (name : String) (scope : ScopeId)
  | left (pass : Pass) (name : String) (scope : ScopeId)
  | typed (node : Tag) (type : Ty)
  | read (name : String)
  | reported (node : Tag) (violation : Violation)
  | warned (span : Span) (caution : Caution)
  | skipped (function : String) (line : Int)
  deriving DecidableEq

namespace Event

def reads (name : String) : Event → Bool
  | read other => other = name
  | _ => false

def entry? : Event → Option Entry
  | reported node violation =>
    some ⟨node.span, node.text, violation.category, violation.message⟩
  | _ => none

def warning? : Event → Option Warning
  | warned span caution => some ⟨span, caution.code, caution.message⟩
  | _ => none

end Event

inductive Fault where
  /-- The scope of a function or of the main part was not declared before. -/
  | missingScope (name parent : String)
  /-- A variable or parameter that is never read has an empty name. -/
  | emptyName
  deriving DecidableEq

def Fault.message : Fault → String
  | .missingScope name parent =>
    "check: scope " ++ name ++ " missing under " ++ parent ++ "; run DefineScopes first"
  | .emptyName => "runtime error: index out of range [0] with length 0"

/-- What a walk leaves: the scopes as it changed them, what happened, and why it stopped early. -/
structure Walk where
  scopes : ScopeTable
  events : List Event
  fault : Option Fault

namespace Walk

/-- Goes on with another walk unless this one stopped early. -/
def andThen (w : Walk) (next : ScopeTable → Walk) : Walk :=
  match w.fault with
  | some _ => w
  | none =>
    let later := next w.scopes
    ⟨later.scopes, w.events ++ later.events, later.fault⟩

end Walk

end ScriptAnalysis
