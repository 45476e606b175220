import ScriptAnalysis.Analysis.Event
import ScriptAnalysis.Text.Blank

/-!
# Traces

A trace tells an analysis line by line as pairs of a key and a value. A value is quoted where a
reader of the line could not see where it ends: when it is empty or holds a blank, an equals sign, a
quote or a character that does not print.
-/

namespace ScriptAnalysis.Trace

open Text

inductive Value where
  | number (n : Int)
  | text (s : String)

/-- Of the ASCII controls the last one, delete, is written as it is. -/
def forcesQuotes (c : Char) : Bool :=
  if c.toNat < 0x80 then c.toNat ≤ 0x20 || c = '=' || c = '"'
  else c = '\ufffd' || isBlank c || !isPrintable c

def Value.render : Value → String
  | number n => toString n
  | text s => if s = "" ∨ s.toList.any forcesQuotes then quote s else s

def line (message : String) (fields : List (String × Value)) : String :=
  "level=DEBUG msg=" ++ (Value.text message).render ++
    String.join (fields.map fun (key, value) ↦ " " ++ key ++ "=" ++ value.render) ++ "\n"

end Trace

open Trace in
/-- The line an event leaves in a trace. Types, reads and warnings leave none. -/
def Event.traceLine : Event → String
  | entered pass name _ => line "enter scope" [("pass", .number pass.number), ("scope", .text name)]
  | left pass name _ => line "exit scope" [("pass", .number pass.number), ("scope", .text name)]
  | reported node violation =>
    line "error"
      [("code", .text violation.category.code), ("category", .text violation.category.name),
        ("line", .number node.line), ("msg", .text violation.message)]
  | skipped function number =>
    line "skip shadowed function" [("name", .text function), ("line", .number number)]
  | typed _ _ | read _ | warned _ _ => ""

end ScriptAnalysis
