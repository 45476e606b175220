import ScriptAnalysis.Program.Extent
import ScriptAnalysis.Program.Tree

/-!
# Numbering the nodes of a tree

Nodes are numbered from one on, each after its children. A block in braces takes two numbers and
keeps the second. Each function takes the last number given so far and answers the last one after
its part of the tree.
-/

namespace ScriptAnalysis

mutual

def Expr.number (last : Nat) : Expr Extent → Expr Tag × Nat
  | .int note digits => (.int ⟨last + 1, note⟩ digits, last + 1)
  | .string note lexeme => (.string ⟨last + 1, note⟩ lexeme, last + 1)
  | .bool note value => (.bool ⟨last + 1, note⟩ value, last + 1)
  | .ident note name => (.ident ⟨last + 1, note⟩ name, last + 1)
  | .negate note op operand =>
    let (operand, last) := operand.number last
    (.negate ⟨last + 1, note⟩ op operand, last + 1)
  | .parens note inner =>
    let (inner, last) := inner.number last
    (.parens ⟨last + 1, note⟩ inner, last + 1)
  | .binary note op left right =>
    let (left, last) := left.number last
    let (right, last) := right.number last
    (.binary ⟨last + 1, note⟩ op left right, last + 1)
  | .call note callee args =>
    let (args, last) := Expr.numberAll last args
    (.call ⟨last + 1, note⟩ callee args, last + 1)

def Expr.numberAll (last : Nat) : List (Expr Extent) → List (Expr Tag) × Nat
  | [] => ([], last)
  | first :: others =>
    let (first, last) := first.number last
    let (others, last) := Expr.numberAll last others
    (first :: others, last)

end

def Expr.numberOption (last : Nat) : Option (Expr Extent) → Option (Expr Tag) × Nat
  | none => (none, last)
  | some e =>
    let (e, last) := e.number last
    (some e, last)

mutual

def Stmt.number (last : Nat) : Stmt Extent → Stmt Tag × Nat
  | .assign note target value =>
    let (value, last) := value.number last
    (.assign ⟨last + 1, note⟩ target value, last + 1)
  | .loop note condition body =>
    let (condition, last) := condition.number last
    let (body, last) := body.number last
    (.loop ⟨last + 1, note⟩ condition body, last + 1)
  | .branch note condition whenTrue whenFalse =>
    let (condition, last) := condition.number last
    let (whenTrue, last) := whenTrue.number last
    let (whenFalse, last) := Block.numberOption last whenFalse
    (.branch ⟨last + 1, note⟩ condition whenTrue whenFalse, last + 1)
  | .print note value =>
    let (value, last) := value.number last
    (.print ⟨last + 1, note⟩ value, last + 1)
  | .ret note value =>
    let (value, last) := Expr.numberOption last value
    (.ret ⟨last + 1, note⟩ value, last + 1)
  | .call note callNote callee args =>
    let (args, last) := Expr.numberAll last args
    (.call ⟨last + 2, note⟩ ⟨last + 1, callNote⟩ callee args, last + 2)

/-- A block in braces: its statements, a number that is given to no node, and its own number. -/
def Block.number (last : Nat) : Block Extent → Block Tag × Nat
  | .mk note stmts =>
    let (stmts, last) := Stmt.numberAll last stmts
    (.mk ⟨last + 2, note⟩ stmts, last + 2)

def Block.numberOption (last : Nat) : Option (Block Extent) → Option (Block Tag) × Nat
  | none => (none, last)
  | some block =>
    let (block, last) := block.number last
    (some block, last)

def Stmt.numberAll (last : Nat) : List (Stmt Extent) → List (Stmt Tag) × Nat
  | [] => ([], last)
  | first :: others =>
    let (first, last) := first.number last
    let (others, last) := Stmt.numberAll last others
    (first :: others, last)

end

/-- The statements of a body, which stand in no braces of their own. -/
def Block.numberPlain (last : Nat) : Block Extent → Block Tag × Nat
  | .mk note stmts =>
    let (stmts, last) := Stmt.numberAll last stmts
    (.mk ⟨last + 1, note⟩ stmts, last + 1)

def Param.numberAll (last : Nat) : List (Param Extent) → List (Param Tag) × Nat
  | [] => ([], last)
  | p :: others =>
    let (others, last') := Param.numberAll (last + 1) others
    (⟨⟨last + 1, p.note⟩, p.name, p.type⟩ :: others, last')

def VarDecl.number (last : Nat) (d : VarDecl Extent) : VarDecl Tag × Nat :=
  let (init, last) := Expr.numberOption last d.init
  (⟨⟨last + 1, d.note⟩, d.name, d.type, init⟩, last + 1)

def VarDecl.numberAll (last : Nat) : List (VarDecl Extent) → List (VarDecl Tag) × Nat
  | [] => ([], last)
  | first :: others =>
    let (first, last) := first.number last
    let (others, last) := VarDecl.numberAll last others
    (first :: others, last)

def VarBlock.number (last : Nat) (vars : VarBlock Extent) : VarBlock Tag × Nat :=
  let (decls, last) := VarDecl.numberAll last vars.decls
  (⟨⟨last + 1, vars.note⟩, decls⟩, last + 1)

def Body.number (last : Nat) (body : Body Extent) : Body Tag × Nat :=
  let (vars, last) := body.vars.number last
  let (block, last) := body.block.numberPlain last
  (⟨⟨last + 1, body.note⟩, vars, block⟩, last + 1)

def FuncDef.number (last : Nat) (f : FuncDef Extent) : FuncDef Tag × Nat :=
  let (params, last) := Param.numberAll last f.params
  let (body, last) := f.body.number last
  (⟨⟨last + 1, f.note⟩, f.name, params, f.returns, body⟩, last + 1)

def FuncDef.numberAll (last : Nat) : List (FuncDef Extent) → List (FuncDef Tag) × Nat
  | [] => ([], last)
  | first :: others =>
    let (first, last) := first.number last
    let (others, last) := FuncDef.numberAll last others
    (first :: others, last)

def Script.number (s : Script Extent) : Script Tag :=
  let (funcs, last) := FuncDef.numberAll 0 s.funcs
  match s.main with
  | none => ⟨⟨last + 1, s.note⟩, funcs, none⟩
  | some main =>
    let (main, last) := main.number last
    ⟨⟨last + 1, s.note⟩, funcs, some main⟩

end ScriptAnalysis
