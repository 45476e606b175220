import ScriptAnalysis.Scope

/-!
# Outlines of scope trees

An outline shows a scope with its functions, parameters and variables, and then its children by
name, each two spaces further in.
-/

namespace ScriptAnalysis

def Symbol.outline (margin : String) (label : String) (s : Symbol) : String :=
  margin ++ "  " ++ label ++ " " ++ s.name ++ " : " ++ Ty.textOption s.type ++ "\n"

/-- The label of a symbol that is shown with its number. -/
def Symbol.numbered (word : String) (s : Symbol) : String := word ++ " #" ++ toString s.ordinal

/-- A scope and its own symbols, without its children. -/
def Scope.outline (depth : Nat) (s : Scope) : String :=
  let margin := String.ofList (List.replicate (2 * depth) ' ')
  let returns := match s.returns with
    | none => ""
    | some type => " -> " ++ type.text
  margin ++ "scope " ++ s.name ++ returns ++ "\n" ++
    String.join (s.functions.map fun x ↦ x.outline margin "func") ++
    String.join (s.parameters.map fun x ↦ x.outline margin (x.numbered "param")) ++
    String.join (s.vars.map fun x ↦ x.outline margin (x.numbered "var"))

namespace ScopeTable

/-- The outline of a scope and of what lies below it, down to a number of levels. -/
def outlineUpTo (t : ScopeTable) : Nat → Nat → ScopeId → String
  | 0, _, _ => ""
  | levels + 1, depth, id =>
    match t.scope? id with
    | none => ""
    | some s =>
      s.outline depth ++ String.join (s.childIds.map (t.outlineUpTo levels (depth + 1)))

/-- Children come later in the table than their parent, so its size bounds the levels. -/
def outline (t : ScopeTable) (id : ScopeId) : String := t.outlineUpTo t.size 0 id

end ScopeTable

end ScriptAnalysis
