/-!
# Places and spans

A place is a line and a column; a span runs from its first place up to, and not including, its last.
Spans found in a source have lines and columns from one on, but a span made by hand may hold any
numbers, so both are integers.
-/

namespace ScriptAnalysis

structure Place where
  line : Int
  col : Int
  deriving DecidableEq

structure Span where
  start : Place
  stop : Place
  deriving DecidableEq

end ScriptAnalysis
