import ScriptAnalysis.Program.Tree
import ScriptAnalysis.Text.Blank

/-!
# Outlines of programs

An outline prints a program with one line for each declaration and statement, two spaces further in
for each block around it. Expressions show every binary operation in parentheses, so that the
grouping can be read off.
-/

namespace ScriptAnalysis

variable {α : Type}

mutual

def Expr.outline : Expr α → String
  | .int _ digits => digits
  | .string _ lexeme => lexeme
  | .bool _ value => if value then "true" else "false"
  | .ident _ name => name
  | .negate _ op operand => op ++ operand.outline
  | .parens _ inner => "(" ++ inner.outline ++ ")"
  | .binary _ op left right => "(" ++ left.outline ++ " " ++ op.text ++ " " ++ right.outline ++ ")"
  | .call _ callee args => callee ++ "(" ++ ", ".intercalate (Expr.outlines args) ++ ")"

def Expr.outlines : List (Expr α) → List String
  | [] => []
  | first :: others => first.outline :: Expr.outlines others

end

def indent (depth : Nat) : String := String.ofList (List.replicate (2 * depth) ' ')

/-- A line of an outline at a depth. -/
def outlineLine (depth : Nat) (text : String) : String := indent depth ++ text ++ "\n"

mutual

def Stmt.outline (depth : Nat) : Stmt α → String
  | .assign _ target value => outlineLine depth (target ++ " = " ++ value.outline)
  | .loop _ condition body =>
    outlineLine depth ("while " ++ condition.outline ++ ":") ++ body.outline (depth + 1)
  | .branch _ condition whenTrue none =>
    outlineLine depth ("if " ++ condition.outline ++ ":") ++ whenTrue.outline (depth + 1)
  | .branch _ condition whenTrue (some whenFalse) =>
    outlineLine depth ("if " ++ condition.outline ++ ":") ++ whenTrue.outline (depth + 1)
      ++ outlineLine depth "else:" ++ whenFalse.outline (depth + 1)
  | .print _ value => outlineLine depth ("print " ++ value.outline)
  | .ret _ none => outlineLine depth "return"
  | .ret _ (some value) => outlineLine depth ("return " ++ value.outline)
  | .call note _ callee args => outlineLine depth (Expr.call note callee args).outline

def Block.outline (depth : Nat) : Block α → String
  | .mk _ stmts => Stmt.outlines depth stmts

def Stmt.outlines (depth : Nat) : List (Stmt α) → String
  | [] => ""
  | first :: others => first.outline depth ++ Stmt.outlines depth others

end

def VarDecl.outline (depth : Nat) (d : VarDecl α) : String :=
  outlineLine depth ("var " ++ d.name ++ " : " ++ d.type ++
    match d.init with
    | none => ""
    | some e => " = " ++ e.outline)

def Body.outline (depth : Nat) (body : Body α) : String :=
  String.join (body.vars.decls.map (VarDecl.outline depth)) ++ body.block.outline depth

def Param.outline (p : Param α) : String := p.name ++ ": " ++ p.type

/-- A function without a written return type is shown to return `Void`. -/
def FuncDef.outline (f : FuncDef α) : String :=
  let returns := if Text.isAllBlank f.returns then "Void" else f.returns
  "func " ++ f.name ++ "(" ++ ", ".intercalate (f.params.map Param.outline) ++ ") -> " ++ returns ++
    ":\n" ++ f.body.outline 1 ++ "\n"

def Script.outline (s : Script α) : String :=
  String.join (s.funcs.map FuncDef.outline) ++
    match s.main with
    | none => ""
    | some main => "main:\n" ++ main.outline 1

end ScriptAnalysis
