import ScriptAnalysis.Diagnostic.Category
import ScriptAnalysis.Ordered
import ScriptAnalysis.Span
import ScriptAnalysis.Text.Json

/-!
# The log of violations

An entry is known by its line and the text of the node it is about. Adding a second entry under the
same line and text replaces the first where it stands; otherwise an entry goes behind those of its
line. The entries are thus always in the order of lines, and within a line in the order in which
their texts first came.
-/

namespace ScriptAnalysis

structure Entry where
  span : Span
  source : String
  category : Category
  message : String
  deriving DecidableEq

namespace Entry

def line (e : Entry) : Int := e.span.start.line

def sameKey (a b : Entry) : Bool := a.line = b.line && a.source = b.source

def text (e : Entry) : String :=
  "line " ++ toString e.line ++ " : " ++ e.category.name ++ " : " ++ e.message ++ "\n    " ++ e.source

def json (e : Entry) : Text.Json :=
  .object
    [("line", .number e.line), ("col", .number e.span.start.col), ("code", .string e.category.code),
      ("category", .string e.category.name), ("message", .string e.message),
      ("source", .string e.source)]

def precedes (a b : Entry) : Bool := a.line < b.line

/-- Puts an entry in the place of those with its key. -/
def replace (e : Entry) (entries : List Entry) : List Entry :=
  entries.map fun old ↦ if old.sameKey e then e else old

end Entry

structure Log where
  entries : List Entry
  deriving DecidableEq

namespace Log

def empty : Log := ⟨[]⟩

variable (log : Log)

def add (e : Entry) : Log :=
  ⟨if log.entries.any (·.sameKey e) then e.replace log.entries
    else Ordered.insert Entry.precedes e log.entries⟩

def total : Nat := log.entries.length

def isEmpty : Bool := log.entries.isEmpty

/-- Whether the entry for a text on a line has a category. -/
def includesExactly (category : Category) (line : Int) (source : String) : Bool :=
  log.entries.any fun e ↦ e.line = line && e.source = source && e.category = category

def includesOnLine (category : Category) (line : Int) : Bool :=
  log.entries.any fun e ↦ e.line = line && e.category = category

def countOf (category : Category) : Nat := log.entries.countP (·.category = category)

def text : String := "\n".intercalate (log.entries.map Entry.text)

def json : Text.Json := .array (log.entries.map Entry.json)

end Log

end ScriptAnalysis
