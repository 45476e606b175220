import ScriptAnalysis.Diagnostic.Catalog
import ScriptAnalysis.Program.SyntaxError

/-!
# Diagnostics and warnings

A diagnostic is a message with a code and a span; either may be missing, which shows as an empty
code or as line zero.
-/

namespace ScriptAnalysis

def Place.text (p : Place) : String := toString p.line ++ ":" ++ toString p.col

structure Diagnostic where
  span : Span
  code : String
  message : String
  deriving DecidableEq

def Diagnostic.text (d : Diagnostic) : String :=
  let coded := if d.code = "" then d.message else d.code ++ ": " ++ d.message
  if d.span.start.line = 0 then coded else d.span.start.text ++ ": " ++ coded

structure Warning where
  span : Span
  code : String
  message : String
  deriving DecidableEq

def Warning.text (w : Warning) : String :=
  if w.code = "" then "warning: " ++ w.message
  else if w.span.start.line = 0 then w.code ++ ": " ++ w.message
  else w.span.start.text ++ ": " ++ w.code ++ ": " ++ w.message

namespace SyntaxError

def span (e : SyntaxError) : Span := e.token.span

def code (e : SyntaxError) : String := Catalog.code .parsing e.fault.key

def message (e : SyntaxError) : String := e.fault.message

def diagnostic (e : SyntaxError) : Diagnostic := ⟨e.span, e.code, e.message⟩

end SyntaxError

end ScriptAnalysis
