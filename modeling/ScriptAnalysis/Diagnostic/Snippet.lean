import ScriptAnalysis.Diagnostic.Log
import ScriptAnalysis.Diagnostic.Message
import ScriptAnalysis.Text.Blank
import ScriptAnalysis.Text.Column
import ScriptAnalysis.Text.Lines

/-!
# Snippets

A snippet shows the line a span begins on and marks the span under it. A tab in the line counts as
four columns in the mark. A span that leaves its line is marked at its first column only.
-/

namespace ScriptAnalysis.Snippet

open Text

/-- A line of a source without the carriage returns at its end, empty where there is none. -/
def lineText (source : String) (line : Int) : List Char :=
  if line < 1 then []
  else trimRight (· = '\r') (((lines source.toList)[(line - 1).toNat]?).getD [])

/-- The columns some characters take where tabs are widened. -/
def width : List Char → Nat
  | [] => 0
  | c :: rest => (if c = '\t' then 4 else 1) + width rest

/-- The column before a column. Columns are words of 64 bits, so the least one comes after the
greatest. -/
def columnBefore (col : Int) : Int :=
  if col = Int64.minValue.toInt then Int64.maxValue.toInt else col - 1

/-- How many of `length` characters stand before a column. -/
def charsBefore (length : Nat) (col : Int) : Nat := min (columnBefore col).toNat length

def widthBefore (line : List Char) (col : Int) : Nat := width (line.take (charsBefore line.length col))

/-- Where the mark ends that begins at `start`. -/
def markEnd (line : List Char) (start : Nat) (col stopCol : Int) : Nat :=
  if 0 < stopCol ∧ col < stopCol then
    let stop := widthBefore line stopCol
    if stop < start + 1 then start + 1 else min stop (width line)
  else if start < width line then
    start + 1
  else
    start

def underline (line : List Char) (col stopCol : Int) (label : String) : String :=
  let start := widthBefore line col
  let stop := markEnd line start col stopCol
  spaces start ++ "^" ++ String.ofList (List.replicate (stop - start - 1) '~') ++
    if isAllBlank label then "" else " " ++ label

/-- The line and the mark under it; nothing without a source or for a span on no line. -/
def text (source : String) (span : Span) (label : String) : String :=
  if span.start.line ≤ 0 ∨ source = "" then ""
  else
    let line := lineText source span.start.line
    let number := toString span.start.line
    let stopCol := if span.stop.line = span.start.line then span.stop.col else 0
    " " ++ number ++ " | " ++ String.ofList line ++ "\n" ++ " " ++ spaces number.length ++ " | " ++
      underline line span.start.col stopCol label ++ "\n"

def location (file : String) (place : Place) : String := " --> " ++ file ++ ":" ++ place.text ++ "\n"

end Snippet

open Snippet in
def Entry.render (e : Entry) (file source : String) : String :=
  "error[" ++ e.category.code ++ "]: " ++ e.message ++ "\n" ++
    (if file = "" then "" else location file e.span.start) ++
    Snippet.text source e.span e.category.title ++
    if e.category.help = "" then "" else "help: " ++ e.category.help ++ "\n"

open Snippet in
def Diagnostic.render (d : Diagnostic) (file source : String) : String :=
  (if d.code = "" then "error: " else "error[" ++ d.code ++ "]: ") ++ d.message ++ "\n" ++
    (if file = "" ∨ d.span.start.line ≤ 0 then "" else location file d.span.start) ++
    Snippet.text source d.span ""

end ScriptAnalysis
