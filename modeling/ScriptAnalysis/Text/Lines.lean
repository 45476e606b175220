/-!
# Lines of a text

A line ends before each line feed and at the end of the text, so a text has one line more than it
has line feeds.
-/

namespace ScriptAnalysis.Text

def lines : List Char → List (List Char)
  | [] => [[]]
  | c :: rest =>
    if c = '\n' then [] :: lines rest
    else match lines rest with
      | [] => [[c]]
      | first :: others => (c :: first) :: others

end ScriptAnalysis.Text
