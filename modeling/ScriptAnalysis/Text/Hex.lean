/-!
# Hexadecimal numbers of a fixed width

Lower-case digits; digits above the width are dropped.
-/

namespace ScriptAnalysis.Text

def hexDigit (n : Nat) : Char := Char.ofNat (if n < 10 then 0x30 + n else 0x57 + n)

def hex : (width : Nat) → Nat → List Char
  | 0, _ => []
  | width + 1, n => hex width (n / 16) ++ [hexDigit (n % 16)]

end ScriptAnalysis.Text
