import ScriptAnalysis.Program.Numbering
import ScriptAnalysis.Program.Parser

/-!
# From a source to a tree

A source is read as a whole program or as one expression, and the nodes of the tree are numbered.
-/

namespace ScriptAnalysis

def Script.parse (source : String) : Except SyntaxError (Script Tag) :=
  (Parser.script (Lexer.endMark source) (Lexer.tokens source)).map Script.number

def Expr.parse (source : String) : Except SyntaxError (Expr Tag) :=
  (Parser.wholeExpression (Lexer.endMark source) (Lexer.tokens source)).map
    fun e ↦ (e.number 0).1

end ScriptAnalysis
