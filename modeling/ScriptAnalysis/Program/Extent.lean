import ScriptAnalysis.Token

/-!
# Extents

The extent of a node is the span of the tokens it was read from and their characters without the
blanks and comments between them. A node read from no token lies before the token that follows it.
-/

namespace ScriptAnalysis

structure Extent where
  span : Span
  text : String
  deriving DecidableEq

/-- A number for a node, unique in its tree, and the extent of the node. -/
structure Tag where
  id : Nat
  extent : Extent
  deriving DecidableEq

namespace Tag

def span (tag : Tag) : Span := tag.extent.span

def text (tag : Tag) : String := tag.extent.text

def line (tag : Tag) : Int := tag.span.start.line

end Tag

namespace Extent

def ofTokens (next : Token) : List Token → Extent
  | [] => ⟨⟨next.startPlace, next.startPlace⟩, ""⟩
  | first :: more =>
    ⟨⟨first.startPlace, (more.getLastD first).stopPlace⟩,
      String.join ((first :: more).map Token.lexeme)⟩

/-- The extent of the tokens from `start` on that are gone in `rest`. -/
def between (endMark : Token) (start rest : List Token) : Extent :=
  ofTokens (rest.headD endMark) (start.take (start.length - rest.length))

end Extent

end ScriptAnalysis
