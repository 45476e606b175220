import ScriptAnalysis.Analysis.Event
import ScriptAnalysis.Program.Node

/-!
# Declaring scopes

The first walk makes one scope for each function definition and one for the main part. A function is
bound to its signature in the global scope and its parameters are bound in its own; a parameter name
that comes a second time is bound to the type `error`. Variables are declared by the second walk.
-/

namespace ScriptAnalysis

open ScopeTable (globalId mainName)

def FuncDef.signature {α : Type} (f : FuncDef α) : Signature :=
  ⟨f.params.map fun p ↦ Prim.declared p.type, Prim.declared f.returns⟩

def Param.declare {α : Type} (scope : ScopeId) (t : ScopeTable) (p : Param α) : ScopeTable :=
  let type := if (t.local? scope p.name).isSome then .error else Prim.declared p.type
  t.defineParam scope p.name (some (.prim type))

def FuncDef.declare (t : ScopeTable) (f : FuncDef Tag) : Walk :=
  let bound := t.define globalId f.name (some (.func f.signature))
  let scope := bound.nextId
  let made := bound.addChild globalId f.name (some (.prim f.signature.returns))
  let scopes := f.params.foldl (Param.declare scope) made
  ⟨scopes, [.entered .declaring f.name scope, .left .declaring f.name scope], none⟩

def Body.declareMain (t : ScopeTable) (_ : Body Tag) : Walk :=
  ⟨t.addChild globalId mainName (some .void),
    [.entered .declaring mainName t.nextId, .left .declaring mainName t.nextId], none⟩

def FuncDef.declareAll (t : ScopeTable) : List (FuncDef Tag) → Walk
  | [] => ⟨t, [], none⟩
  | first :: others => (first.declare t).andThen fun t ↦ FuncDef.declareAll t others

def Script.declare (t : ScopeTable) (s : Script Tag) : Walk :=
  (FuncDef.declareAll t s.funcs).andThen fun t ↦
    match s.main with
    | none => ⟨t, [], none⟩
    | some main => main.declareMain t

/-- Only scripts, function definitions and main parts have scopes to declare. -/
def Node.declare (t : ScopeTable) : Node Tag → Walk
  | .script s => s.declare t
  | .func f => f.declare t
  | .main b => b.declareMain t
  | _ => ⟨t, [], none⟩

end ScriptAnalysis
