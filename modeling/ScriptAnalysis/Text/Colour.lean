/-!
# Colours on a terminal

A painted text is put between the escape sequence of its colour and the one that ends all colours.
Without colours it stays as it is.
-/

namespace ScriptAnalysis.Text

inductive Colour where
  | red
  | yellow
  | green
  | blue

def Colour.code : Colour → String
  | .red => "31"
  | .yellow => "33"
  | .green => "32"
  | .blue => "94"

/-- Whether output is coloured. -/
abbrev Palette := Bool

def Palette.paint (palette : Palette) (colour : Colour) (s : String) : String :=
  if palette then "\x1b[" ++ colour.code ++ "m" ++ s ++ "\x1b[0m" else s

end ScriptAnalysis.Text
