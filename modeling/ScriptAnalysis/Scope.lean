import ScriptAnalysis.Ordered
import ScriptAnalysis.Ty
import Std.Data.ExtTreeMap

/-!
# Scopes

A table holds every scope ever made, in order. The first is the global scope; every other is a child
of an earlier one and registered there under its name. A scope binds names to symbols and numbers
its variables and its parameters separately. Binding a bound name again replaces the symbol, and
registering a child under a used name replaces the child; the replaced scope stays in the table.
-/

namespace ScriptAnalysis

structure Symbol where
  name : String
  type : Option Ty
  isParam : Bool
  ordinal : Nat
  deriving DecidableEq

namespace Symbol

def isFunction (s : Symbol) : Bool :=
  match s.type with
  | some (.func _) => true
  | _ => false

def text (s : Symbol) : String :=
  "Symbol " ++ s.name ++ " : " ++ Ty.textOption s.type ++ if s.isParam then " (param)" else ""

end Symbol

/-- The position of a scope in its table. -/
abbrev ScopeId := Nat

structure Scope where
  name : String
  returns : Option Ty
  parent : Option ScopeId
  symbols : Std.ExtTreeMap String Symbol
  children : Std.ExtTreeMap String ScopeId
  nextVariable : Nat
  nextParameter : Nat

namespace Scope

def empty (name : String) (returns : Option Ty) (parent : Option ScopeId) : Scope :=
  ⟨name, returns, parent, ∅, ∅, 0, 0⟩

/-- The symbol that a definition binds. Only what has a primitive type takes a number. -/
def variableSymbol (s : Scope) (name : String) (type : Option Ty) : Symbol :=
  match type with
  | some (.prim _) => ⟨name, type, false, s.nextVariable⟩
  | _ => ⟨name, type, false, 0⟩

def define (s : Scope) (name : String) (type : Option Ty) : Scope :=
  let count := match type with
    | some (.prim _) => s.nextVariable + 1
    | _ => s.nextVariable
  { s with
    symbols := s.symbols.insert name (s.variableSymbol name type)
    nextVariable := count }

def parameterSymbol (s : Scope) (name : String) (type : Option Ty) : Symbol :=
  ⟨name, type, true, s.nextParameter⟩

def defineParam (s : Scope) (name : String) (type : Option Ty) : Scope :=
  { s with
    symbols := s.symbols.insert name (s.parameterSymbol name type)
    nextParameter := s.nextParameter + 1 }

def addChild (s : Scope) (name : String) (child : ScopeId) : Scope :=
  { s with children := s.children.insert name child }

def get? (s : Scope) (name : String) : Option Symbol := s.symbols[name]?

/-- Symbols in the order of their names. -/
def allSymbols (s : Scope) : List Symbol := s.symbols.toList.map Prod.snd

/-- Symbols in the order of their numbers, equal numbers in the order of names. -/
def byOrdinal (symbols : List Symbol) : List Symbol :=
  Ordered.sort (fun a b ↦ a.ordinal ≤ b.ordinal) symbols

def parameters (s : Scope) : List Symbol := byOrdinal (s.allSymbols.filter (·.isParam))

def vars (s : Scope) : List Symbol :=
  byOrdinal (s.allSymbols.filter fun x ↦ !x.isParam && !x.isFunction)

def functions (s : Scope) : List Symbol := s.allSymbols.filter fun x ↦ x.isFunction && !x.isParam

def childIds (s : Scope) : List ScopeId := s.children.toList.map Prod.snd

def text (s : Scope) : String :=
  "scope: " ++ s.name ++ " returns " ++ (s.returns.map Ty.text).getD "None" ++
    String.join (s.allSymbols.map fun x ↦ "\n  " ++ x.name ++ " : " ++ Ty.textOption x.type)

end Scope

structure ScopeTable where
  scopes : List Scope

namespace ScopeTable

def globalName : String := "$global"

def mainName : String := "$main"

abbrev globalId : ScopeId := 0

def initial : ScopeTable := ⟨[Scope.empty globalName none none]⟩

variable (t : ScopeTable)

def size : Nat := t.scopes.length

def scope? (id : ScopeId) : Option Scope := t.scopes[id]?

def modify (id : ScopeId) (f : Scope → Scope) : ScopeTable := ⟨t.scopes.modify id f⟩

/-- The position that the next scope will take. -/
def nextId : ScopeId := t.size

/-- Makes a scope inside another and registers it there. -/
def addChild (parent : ScopeId) (name : String) (returns : Option Ty) : ScopeTable :=
  let registered := t.modify parent (·.addChild name t.nextId)
  ⟨registered.scopes ++ [Scope.empty name returns (some parent)]⟩

def define (id : ScopeId) (name : String) (type : Option Ty) : ScopeTable :=
  t.modify id (·.define name type)

def defineParam (id : ScopeId) (name : String) (type : Option Ty) : ScopeTable :=
  t.modify id (·.defineParam name type)

def childNamed? (id : ScopeId) (name : String) : Option ScopeId :=
  (t.scope? id).bind (·.children[name]?)

/-- A scope and the scopes around it, from the inside out, at most so many. -/
def outwardUpTo : Nat → ScopeId → List ScopeId
  | 0, _ => []
  | count + 1, id =>
    match t.scope? id with
    | none => []
    | some s =>
      id :: match s.parent with
        | none => []
        | some parent => outwardUpTo count parent

/-- A scope and the scopes around it, from the inside out. No more can follow than the table has. -/
def outward (id : ScopeId) : List ScopeId := t.outwardUpTo t.size id

/-- The symbol that a scope itself binds to a name. -/
def local? (id : ScopeId) (name : String) : Option Symbol := (t.scope? id).bind (·.get? name)

/-- The symbol bound to a name in a scope or else in the nearest scope around it that binds it. -/
def resolve? (id : ScopeId) (name : String) : Option Symbol :=
  (t.outward id).findSome? fun i ↦ t.local? i name

end ScopeTable

end ScriptAnalysis
