/-!
# Columns and padded numbers

Columns are counted in characters, and a text wider than its column is never cut. The sign of a
padded number counts in its width.
-/

namespace ScriptAnalysis.Text

def spaces (n : Nat) : String := String.ofList (List.replicate n ' ')

def padRight (width : Nat) (s : String) : String := s ++ spaces (width - s.length)

def padZeros (width : Nat) (n : Int) : String :=
  let sign := if n < 0 then "-" else ""
  let digits := toString n.natAbs
  sign ++ String.ofList (List.replicate (width - sign.length - digits.length) '0') ++ digits

end ScriptAnalysis.Text
