import ScriptAnalysis.Program.Node

/-!
# Changing single nodes

An edit changes one facet of the node with a given number. Extents stay as they were read, so an
edited tree may say something else than its text. An edit that fits no node changes nothing.
-/

namespace ScriptAnalysis

inductive Facet where
  | main
  | returns
  | type
  | name
  deriving DecidableEq

structure Edit where
  id : Int
  facet : Facet
  value : String

namespace Edit

variable (edit : Edit)

def hits (tag : Tag) : Bool := tag.id = edit.id

mutual

/-- Of an expression only the operator before an operand can be changed, whatever the facet. -/
def expr : Expr Tag → Expr Tag
  | .int note digits => .int note digits
  | .string note lexeme => .string note lexeme
  | .bool note value => .bool note value
  | .ident note name => .ident note name
  | .negate note op operand =>
    .negate note (if edit.hits note then edit.value else op) (expr operand)
  | .parens note inner => .parens note (expr inner)
  | .binary note op left right => .binary note op (expr left) (expr right)
  | .call note callee args => .call note callee (exprs args)

def exprs : List (Expr Tag) → List (Expr Tag)
  | [] => []
  | first :: others => expr first :: exprs others

end

mutual

def stmt : Stmt Tag → Stmt Tag
  | .assign note target value => .assign note target (edit.expr value)
  | .loop note condition body => .loop note (edit.expr condition) (block body)
  | .branch note condition whenTrue none =>
    .branch note (edit.expr condition) (block whenTrue) none
  | .branch note condition whenTrue (some whenFalse) =>
    .branch note (edit.expr condition) (block whenTrue) (some (block whenFalse))
  | .print note value => .print note (edit.expr value)
  | .ret note value => .ret note (value.map edit.expr)
  | .call note callNote callee args => .call note callNote callee (edit.exprs args)

def block : Block Tag → Block Tag
  | .mk note body => .mk note (stmts body)

def stmts : List (Stmt Tag) → List (Stmt Tag)
  | [] => []
  | first :: others => stmt first :: stmts others

end

/-- The name and the written type of a parameter or variable after an edit of its node. -/
def nameAndType (note : Tag) (name type : String) : String × String :=
  if edit.hits note then
    if edit.facet = .type then (name, edit.value) else (edit.value, type)
  else
    (name, type)

def param (p : Param Tag) : Param Tag :=
  let (name, type) := edit.nameAndType p.note p.name p.type
  ⟨p.note, name, type⟩

def varDecl (d : VarDecl Tag) : VarDecl Tag :=
  let (name, type) := edit.nameAndType d.note d.name d.type
  ⟨d.note, name, type, d.init.map edit.expr⟩

def body (b : Body Tag) : Body Tag :=
  ⟨b.note, ⟨b.vars.note, b.vars.decls.map edit.varDecl⟩, edit.block b.block⟩

def funcDef (f : FuncDef Tag) : FuncDef Tag :=
  let changed : FuncDef Tag :=
    if edit.hits f.note then
      if edit.facet = .returns then { f with returns := edit.value }
      else { f with name := edit.value }
    else
      f
  { changed with params := f.params.map edit.param, body := edit.body f.body }

def script (s : Script Tag) : Script Tag :=
  let dropped := edit.hits s.note && edit.facet = .main
  ⟨s.note, s.funcs.map edit.funcDef, if dropped then none else s.main.map edit.body⟩

end Edit

def Script.edit (edits : List Edit) (s : Script Tag) : Script Tag :=
  edits.foldl (fun s edit ↦ edit.script s) s

def Expr.edit (edits : List Edit) (e : Expr Tag) : Expr Tag :=
  edits.foldl (fun e edit ↦ edit.expr e) e

end ScriptAnalysis
