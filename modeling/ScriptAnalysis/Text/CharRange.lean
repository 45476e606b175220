/-!
# Character classes as ranges of code points

A class of characters is a list of inclusive ranges in ascending order, so a search stops at the
first range that begins above the code point it looks for.
-/

namespace ScriptAnalysis.Text

def inRanges (code : Nat) : List (Nat × Nat) → Bool
  | [] => false
  | (low, high) :: rest => if code < low then false else code ≤ high || inRanges code rest

end ScriptAnalysis.Text
