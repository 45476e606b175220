/-!
# Keeping lists in order

An element is put before the first one that it may stand before. Sorting puts the elements of a list
one after the other, the last one first; if level elements may stand before each other, they keep
their order.
-/

namespace ScriptAnalysis.Ordered

variable {α : Type} (before : α → α → Bool)

def insert (x : α) : List α → List α
  | [] => [x]
  | y :: rest => if before x y then x :: y :: rest else y :: insert x rest

def sort (xs : List α) : List α := xs.foldr (insert before) []

end ScriptAnalysis.Ordered
