import ScriptAnalysis.Analysis.Check
import ScriptAnalysis.Analysis.Trace
import ScriptAnalysis.Analysis.Types

/-!
# Analyses and their reports

An analysis holds what the walks over a program leave behind: scopes, types and the log. A report is
the outcome of both walks over one node. Options choose which events count; they change nothing in
how a program is walked.
-/

namespace ScriptAnalysis

structure Options where
  /-- Whether parentheses around an expression of type `error` are reported too. -/
  parenReports : Bool := true
  warnings : Bool := true

/-- Whether an event counts. -/
def Options.admits (options : Options) : Event → Bool
  | .reported _ .parenthesizedError => options.parenReports
  | .warned _ _ => options.warnings
  | _ => true

def Log.record (log : Log) (event : Event) : Log :=
  match event.entry? with
  | none => log
  | some entry => log.add entry

structure Analysis where
  scopes : ScopeTable
  types : TypeTable
  log : Log

namespace Analysis

def initial : Analysis := ⟨.initial, .empty, .empty⟩

/-- An analysis after one more walk, the events of the walk that count, and its fault. -/
structure Step where
  analysis : Analysis
  events : List Event
  fault : Option Fault

namespace Step

def warnings (step : Step) : List Warning := step.events.filterMap Event.warning?

def trace (step : Step) : String := String.join (step.events.map Event.traceLine)

end Step

def absorb (a : Analysis) (options : Options) (walk : Walk) : Step :=
  let events := walk.events.filter options.admits
  ⟨⟨walk.scopes, events.foldl TypeTable.record a.types, events.foldl Log.record a.log⟩,
    events, walk.fault⟩

def declare (a : Analysis) (options : Options) (node : Node Tag) : Step :=
  a.absorb options (node.declare a.scopes)

def infer (a : Analysis) (options : Options) (node : Node Tag) : Step :=
  a.absorb options (node.check a.scopes)

end Analysis

structure Report where
  analysis : Analysis
  warnings : List Warning
  trace : String
  fault : Option Fault

namespace Report

variable (r : Report)

def scopes : ScopeTable := r.analysis.scopes

def types : TypeTable := r.analysis.types

def log : Log := r.analysis.log

/-- Whether the program is valid. Warnings do not count. -/
def isOk : Bool := r.log.isEmpty

end Report

/-- The last line of the trace of an analysis. -/
def Analysis.summaryLine (a : Analysis) (warnings nodes : Nat) : String :=
  Trace.line "analysis done"
    [("errors", .number a.log.total), ("warnings", .number warnings), ("nodes", .number nodes),
      ("typed", .number a.types.size), ("scopes", .number a.scopes.size)]

/-- Walks a node twice from an empty analysis on. -/
def Node.analyze (options : Options) (node : Node Tag) : Report :=
  let first := Analysis.initial.declare options node
  let second := first.analysis.infer options node
  let summary :=
    if second.fault.isNone then second.analysis.summaryLine second.warnings.length node.count else ""
  ⟨second.analysis, second.warnings, first.trace ++ second.trace ++ summary, second.fault⟩

def Script.analyze (options : Options) (s : Script Tag) : Report := (Node.script s).analyze options

end ScriptAnalysis
