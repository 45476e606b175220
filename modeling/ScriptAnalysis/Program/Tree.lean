import ScriptAnalysis.Token

/-!
# Programs as trees

A script is a list of function definitions followed by a main part; both a function and the main
part have a body, which declares its variables before its first statement. Every node carries a
note. What the note is depends on what is known of the tree: nothing but its shape, the extent of
source that a node was read from, or that extent together with a number for the node.
-/

namespace ScriptAnalysis

inductive Operator where
  | times
  | divide
  | plus
  | minus
  | less
  | lessEqual
  | greater
  | greaterEqual
  | equal
  | notEqual
  deriving DecidableEq

namespace Operator

def ofKind? : Kind → Option Operator
  | .star => some times
  | .slash => some divide
  | .plus => some plus
  | .minus => some minus
  | .less => some less
  | .lessEqual => some lessEqual
  | .greater => some greater
  | .greaterEqual => some greaterEqual
  | .equal => some equal
  | .notEqual => some notEqual
  | _ => none

def text : Operator → String
  | times => "*"
  | divide => "/"
  | plus => "+"
  | minus => "-"
  | less => "<"
  | lessEqual => "<="
  | greater => ">"
  | greaterEqual => ">="
  | equal => "=="
  | notEqual => "!="

/-- How loosely an operator binds: products bind tightest, then sums, then comparisons. -/
def level : Operator → Nat
  | times | divide => 1
  | plus | minus => 2
  | less | lessEqual | greater | greaterEqual | equal | notEqual => 3

end Operator

/-- Literals keep the characters they were written with. The operator before an operand is kept as
text, since a tree that was changed by hand may hold any. -/
inductive Expr (α : Type) where
  | int (note : α) (digits : String)
  | string (note : α) (lexeme : String)
  | bool (note : α) (value : Bool)
  | ident (note : α) (name : String)
  | negate (note : α) (op : String) (operand : Expr α)
  | parens (note : α) (inner : Expr α)
  | binary (note : α) (op : Operator) (left right : Expr α)
  | call (note : α) (callee : String) (args : List (Expr α))

mutual

/-- A call statement has a note of its own beside that of the call it makes. -/
inductive Stmt (α : Type) where
  | assign (note : α) (target : String) (value : Expr α)
  | loop (note : α) (condition : Expr α) (body : Block α)
  | branch (note : α) (condition : Expr α) (whenTrue : Block α) (whenFalse : Option (Block α))
  | print (note : α) (value : Expr α)
  | ret (note : α) (value : Option (Expr α))
  | call (note : α) (callNote : α) (callee : String) (args : List (Expr α))

inductive Block (α : Type) where
  | mk (note : α) (stmts : List (Stmt α))

end

structure Param (α : Type) where
  note : α
  name : String
  type : String

structure VarDecl (α : Type) where
  note : α
  name : String
  type : String
  init : Option (Expr α)

structure VarBlock (α : Type) where
  note : α
  decls : List (VarDecl α)

structure Body (α : Type) where
  note : α
  vars : VarBlock α
  block : Block α

/-- The written return type is empty where none is written. -/
structure FuncDef (α : Type) where
  note : α
  name : String
  params : List (Param α)
  returns : String
  body : Body α

structure Script (α : Type) where
  note : α
  funcs : List (FuncDef α)
  main : Option (Body α)

def Expr.note {α : Type} : Expr α → α
  | .int note _ | .string note _ | .bool note _ | .ident note _ | .negate note _ _ | .parens note _
  | .binary note _ _ _ | .call note _ _ => note

def Stmt.note {α : Type} : Stmt α → α
  | .assign note _ _ | .loop note _ _ | .branch note _ _ _ | .print note _ | .ret note _
  | .call note _ _ _ => note

def Block.note {α : Type} : Block α → α
  | .mk note _ => note

def Block.stmts {α : Type} : Block α → List (Stmt α)
  | .mk _ stmts => stmts

def Stmt.isReturn {α : Type} : Stmt α → Bool
  | .ret _ _ => true
  | _ => false

end ScriptAnalysis
