import ScriptAnalysis.Program.Extent
import ScriptAnalysis.Program.Tree

/-!
# Nodes

Every part of a program seen as one type, with its direct parts and with a walk over all parts below
it, each part before those it consists of. A walk can leave out what lies below some nodes.
-/

namespace ScriptAnalysis

inductive Node (α : Type) where
  | script (s : Script α)
  | func (f : FuncDef α)
  | param (p : Param α)
  | main (body : Body α)
  | body (body : Body α)
  | vars (vars : VarBlock α)
  | block (block : Block α)
  | decl (d : VarDecl α)
  | stmt (s : Stmt α)
  | expr (e : Expr α)

variable {α : Type}

def Stmt.children : Stmt α → List (Node α)
  | .assign _ _ value | .print _ value => [.expr value]
  | .loop _ condition body => [.expr condition, .block body]
  | .branch _ condition whenTrue whenFalse =>
    [.expr condition, .block whenTrue] ++ whenFalse.toList.map .block
  | .ret _ value => value.toList.map .expr
  | .call _ callNote callee args => [.expr (.call callNote callee args)]

def Expr.children : Expr α → List (Node α)
  | .int _ _ | .string _ _ | .bool _ _ | .ident _ _ => []
  | .negate _ _ operand => [.expr operand]
  | .parens _ inner => [.expr inner]
  | .binary _ _ left right => [.expr left, .expr right]
  | .call _ _ args => args.map .expr

namespace Node

def note : Node α → α
  | script s => s.note
  | func f => f.note
  | param p => p.note
  | main b | body b => b.note
  | vars v => v.note
  | block b => b.note
  | decl d => d.note
  | stmt s => s.note
  | expr e => e.note

/-- The direct parts of a node in source order. -/
def children : Node α → List (Node α)
  | script s => s.funcs.map func ++ s.main.toList.map main
  | func f => f.params.map param ++ [body f.body]
  | param _ => []
  | main b | body b => [vars b.vars, block b.block]
  | vars v => v.decls.map decl
  | block b => b.stmts.map stmt
  | decl d => d.init.toList.map expr
  | stmt s => s.children
  | expr e => e.children

/-- A node, followed by what lies below it unless that is left out. -/
def visit (skip : Node α → Bool) (node : Node α) (below : List (Node α)) : List (Node α) :=
  node :: if skip node then [] else below

end Node

open Node (visit)

mutual

def Expr.walk (skip : Node α → Bool) : Expr α → List (Node α)
  | .int note digits => visit skip (.expr (.int note digits)) []
  | .string note lexeme => visit skip (.expr (.string note lexeme)) []
  | .bool note value => visit skip (.expr (.bool note value)) []
  | .ident note name => visit skip (.expr (.ident note name)) []
  | .negate note op operand => visit skip (.expr (.negate note op operand)) (operand.walk skip)
  | .parens note inner => visit skip (.expr (.parens note inner)) (inner.walk skip)
  | .binary note op left right =>
    visit skip (.expr (.binary note op left right)) (left.walk skip ++ right.walk skip)
  | .call note callee args => visit skip (.expr (.call note callee args)) (Expr.walkAll skip args)

def Expr.walkAll (skip : Node α → Bool) : List (Expr α) → List (Node α)
  | [] => []
  | first :: others => first.walk skip ++ Expr.walkAll skip others

end

mutual

def Stmt.walk (skip : Node α → Bool) : Stmt α → List (Node α)
  | .assign note target value => visit skip (.stmt (.assign note target value)) (value.walk skip)
  | .loop note condition body =>
    visit skip (.stmt (.loop note condition body)) (condition.walk skip ++ body.walk skip)
  | .branch note condition whenTrue none =>
    visit skip (.stmt (.branch note condition whenTrue none))
      (condition.walk skip ++ whenTrue.walk skip)
  | .branch note condition whenTrue (some whenFalse) =>
    visit skip (.stmt (.branch note condition whenTrue (some whenFalse)))
      (condition.walk skip ++ whenTrue.walk skip ++ whenFalse.walk skip)
  | .print note value => visit skip (.stmt (.print note value)) (value.walk skip)
  | .ret note none => visit skip (.stmt (.ret note none)) []
  | .ret note (some value) => visit skip (.stmt (.ret note (some value))) (value.walk skip)
  | .call note callNote callee args =>
    visit skip (.stmt (.call note callNote callee args))
      ((Expr.call callNote callee args).walk skip)

def Block.walk (skip : Node α → Bool) : Block α → List (Node α)
  | .mk note stmts => visit skip (.block (.mk note stmts)) (Stmt.walkAll skip stmts)

def Stmt.walkAll (skip : Node α → Bool) : List (Stmt α) → List (Node α)
  | [] => []
  | first :: others => first.walk skip ++ Stmt.walkAll skip others

end

def VarDecl.walk (skip : Node α → Bool) (d : VarDecl α) : List (Node α) :=
  visit skip (.decl d) (d.init.toList.flatMap (Expr.walk skip))

def VarBlock.walk (skip : Node α → Bool) (vars : VarBlock α) : List (Node α) :=
  visit skip (.vars vars) (vars.decls.flatMap (VarDecl.walk skip))

/-- The parts of a body, without the node of the body itself. -/
def Body.walkParts (skip : Node α → Bool) (body : Body α) : List (Node α) :=
  body.vars.walk skip ++ body.block.walk skip

def FuncDef.walk (skip : Node α → Bool) (f : FuncDef α) : List (Node α) :=
  visit skip (.func f)
    (f.params.flatMap (fun p ↦ visit skip (.param p) []) ++
      visit skip (.body f.body) (f.body.walkParts skip))

def Script.walk (skip : Node α → Bool) (s : Script α) : List (Node α) :=
  visit skip (.script s)
    (s.funcs.flatMap (FuncDef.walk skip) ++
      s.main.toList.flatMap (fun main ↦ visit skip (.main main) (main.walkParts skip)))

namespace Node

/-- A node and all nodes below it, each before its parts, without those below a skipped node. -/
def walk (skip : Node α → Bool) : Node α → List (Node α)
  | script s => s.walk skip
  | func f => f.walk skip
  | param p => visit skip (param p) []
  | main b => visit skip (main b) (b.walkParts skip)
  | body b => visit skip (body b) (b.walkParts skip)
  | vars v => v.walk skip
  | block b => b.walk skip
  | decl d => d.walk skip
  | stmt s => s.walk skip
  | expr e => e.walk skip

def all (node : Node α) : List (Node α) := node.walk fun _ ↦ false

def count (node : Node α) : Nat := node.all.length

def find? (id : Int) (node : Node Tag) : Option (Node Tag) := node.all.find? (·.note.id = id)

end Node

end ScriptAnalysis
