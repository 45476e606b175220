import ScriptAnalysis.Text.CharRange

/-!
# Blanks

The characters that separate words without being part of any. The zero-width space and the
byte-order mark are not among them.
-/

namespace ScriptAnalysis.Text

def blankRanges : List (Nat × Nat) :=
  [(0x09, 0x0D), (0x20, 0x20), (0x85, 0x85), (0xA0, 0xA0), (0x1680, 0x1680), (0x2000, 0x200A),
    (0x2028, 0x2029), (0x202F, 0x202F), (0x205F, 0x205F), (0x3000, 0x3000)]

def isBlank (c : Char) : Bool := inRanges c.toNat blankRanges

/-- A text without the characters of a class at its end. -/
def trimRight (drop : Char → Bool) (cs : List Char) : List Char :=
  (cs.reverse.dropWhile drop).reverse

/-- A text without the blanks around it. -/
def trim (s : String) : String := String.ofList (trimRight isBlank (s.toList.dropWhile isBlank))

def isAllBlank (s : String) : Bool := s.toList.all isBlank

end ScriptAnalysis.Text
