import ScriptAnalysis.Analysis.Event
import Std.Data.ExtTreeMap

/-!
# The table of types

Every expression of an analyzed program has an entry under the number of its node; so has a
variable whose declaration failed. Entries are listed in source order, and those that begin at the
same place from the inside out, which is the order of their numbers.
-/

namespace ScriptAnalysis

structure Typed where
  node : Tag
  type : Ty

/-- Whether a node begins before another or at the same place. -/
def Typed.startsBy (a b : Typed) : Bool :=
  let p := a.node.span.start
  let q := b.node.span.start
  p.line < q.line || (p.line = q.line && p.col ≤ q.col)

structure TypeTable where
  byId : Std.ExtTreeMap Nat Typed

namespace TypeTable

def empty : TypeTable := ⟨∅⟩

variable (types : TypeTable)

def set (node : Tag) (type : Ty) : TypeTable := ⟨types.byId.insert node.id ⟨node, type⟩⟩

def get? (id : Nat) : Option Ty := types.byId[id]?.map (·.type)

def size : Nat := types.byId.size

def entries : List Typed := Ordered.sort Typed.startsBy (types.byId.toList.map Prod.snd)

def record : Event → TypeTable
  | .typed node type => types.set node type
  | _ => types

end TypeTable

end ScriptAnalysis
