import ScriptAnalysis.Program.Parser

/-!
# Reading with a cursor

The tokens of a source are one list that ends with the mark of its end, and reading moves a position
over it. A counter moves with it: whenever a node is complete it takes the next number, so a node is
numbered where the reading of it ends and not by what the tree becomes. Nothing here is known to
stay inside the list and nothing to end: a procedure that looks or steps outside the list has no
outcome, and neither has one that is called deeper than its fuel lets it. With unlimited calls a
procedure ends if and only if it has an outcome with some fuel.
-/

namespace ScriptAnalysis.Cursor

/-- How far reading has come: the position, and the last number that a node took. -/
structure State where
  pos : Nat
  last : Nat

/-- A procedure takes a state to an outcome, which may be a syntax error, and a new state. -/
abbrev Procedure (α : Type) := ExceptT SyntaxError (StateT State Option) α

/-- No outcome. -/
def stuck {α : Type} : Procedure α := fun _ ↦ none

def position : Procedure Nat := fun s ↦ some (.ok s.pos, s)

/-- Takes the next number. -/
def nextNumber : Procedure Nat := fun s ↦ some (.ok (s.last + 1), { s with last := s.last + 1 })

section

variable (toks : List Token)

/-- The token at a place of the list. -/
def tokenAt (place : Nat) : Procedure Token := fun s ↦ do
  let t ← toks[place]?
  return (.ok t, s)

/-- The tokens from one place to before another. -/
def tokensFrom (start stop : Nat) : Procedure (List Token) := fun s ↦
  if start ≤ stop ∧ stop ≤ toks.length then some (.ok ((toks.drop start).take (stop - start)), s)
  else none

/-- Steps to the next place, which has to be in the list. -/
def advance : Procedure Unit := fun s ↦
  if s.pos + 1 < toks.length then some (.ok (), { s with pos := s.pos + 1 }) else none

def tok : Procedure Token := do tokenAt toks (← position)

/-- The kind of the token some places ahead. There is the end behind the end. -/
def peekKind (ahead : Nat) : Procedure Kind := do
  let pos ← position
  if pos + ahead ≥ toks.length then return .eof else return (← tokenAt toks (pos + ahead)).kind

/-- Takes the token at the position. Nothing steps over the end. -/
def next : Procedure Token := do
  let t ← tok toks
  if t.kind = .eof then return t
  else
    advance toks
    return t

def accept (kind : Kind) : Procedure Bool := do
  if (← tok toks).kind = kind then
    let _ ← next toks
    return true
  else
    return false

def unexpected {α : Type} (expected : Expected) : Procedure α := do
  throw (.unexpected (← tok toks) expected)

def expect (kind : Kind) : Procedure Token := do
  if (← tok toks).kind = kind then next toks else unexpected toks (.token kind)

/-- The extent of a node that began at `start` and ends before the position. -/
def extent (start : Nat) : Procedure Extent := do
  let pos ← position
  if start ≥ pos then
    let here ← tok toks
    return ⟨⟨here.startPlace, here.startPlace⟩, ""⟩
  else
    let first ← tokenAt toks start
    let last ← tokenAt toks (pos - 1)
    let all ← tokensFrom toks start pos
    return ⟨⟨first.startPlace, last.stopPlace⟩, String.join (all.map Token.lexeme)⟩

/-- Completes a node that began at `start`, which takes the next number. -/
def tag (start : Nat) : Procedure Tag := do
  let id ← nextNumber
  return ⟨id, ← extent toks start⟩

mutual

def binary : (fuel level : Nat) → Procedure (Expr Tag)
  | 0, _ => stuck
  | fuel + 1, 0 => unary fuel
  | fuel + 1, level + 1 => do
    let start ← position
    let left ← binary fuel level
    chain fuel level start left

def chain : (fuel level start : Nat) → Expr Tag → Procedure (Expr Tag)
  | 0, _, _, _ => stuck
  | fuel + 1, level, start, left => do
    match Operator.ofKind? (← tok toks).kind with
    | none => return left
    | some op =>
      if op.level = level + 1 then
        let _ ← next toks
        let right ← binary fuel level
        let note ← tag toks start
        chain fuel level start (.binary note op left right)
      else
        return left

def unary : (fuel : Nat) → Procedure (Expr Tag)
  | 0 => stuck
  | fuel + 1 => do
    let t ← tok toks
    if t.kind = .minus ∨ t.kind = .bang then
      let start ← position
      let _ ← next toks
      let operand ← unary fuel
      let note ← tag toks start
      return .negate note t.lexeme operand
    else
      primary fuel

def primary : (fuel : Nat) → Procedure (Expr Tag)
  | 0 => stuck
  | fuel + 1 => do
    let start ← position
    let t ← tok toks
    match t.kind with
    | .int =>
      let _ ← next toks
      return .int (← tag toks start) t.lexeme
    | .string =>
      let _ ← next toks
      return .string (← tag toks start) t.lexeme
    | .trueWord =>
      let _ ← next toks
      return .bool (← tag toks start) true
    | .falseWord =>
      let _ ← next toks
      return .bool (← tag toks start) false
    | .ident =>
      if (← peekKind toks 1) = .leftParen then
        let (note, callee, args) ← call fuel
        return .call note callee args
      else
        let _ ← next toks
        return .ident (← tag toks start) t.lexeme
    | .leftParen =>
      let _ ← next toks
      let inner ← binary fuel 3
      let _ ← expect toks .rightParen
      return .parens (← tag toks start) inner
    | _ => unexpected toks .expression

def call : (fuel : Nat) → Procedure (Tag × String × List (Expr Tag))
  | 0 => stuck
  | fuel + 1 => do
    let start ← position
    let name ← expect toks .ident
    let _ ← expect toks .leftParen
    let args ← arguments fuel
    return (← tag toks start, name.lexeme, args)

def arguments : (fuel : Nat) → Procedure (List (Expr Tag))
  | 0 => stuck
  | fuel + 1 => do
    if ← accept toks .rightParen then return [] else argumentList fuel

def argumentList : (fuel : Nat) → Procedure (List (Expr Tag))
  | 0 => stuck
  | fuel + 1 => do
    let first ← binary fuel 3
    if ← accept toks .comma then
      let others ← argumentList fuel
      return first :: others
    else
      let _ ← expect toks .rightParen
      return [first]

end

def expression (fuel : Nat) : Procedure (Expr Tag) := binary toks fuel 3

mutual

def statement : (fuel : Nat) → Procedure (Stmt Tag)
  | 0 => stuck
  | fuel + 1 => do
    let start ← position
    let t ← tok toks
    match t.kind with
    | .ident =>
      if (← peekKind toks 1) = .leftParen then
        let (note, callee, args) ← call toks fuel
        return .call (← tag toks start) note callee args
      else
        let _ ← next toks
        let _ ← expect toks .assign
        let value ← expression toks fuel
        return .assign (← tag toks start) t.lexeme value
    | .whileWord =>
      let _ ← next toks
      let condition ← expression toks fuel
      let body ← braceBlock fuel
      return .loop (← tag toks start) condition body
    | .ifWord =>
      let _ ← next toks
      let condition ← expression toks fuel
      let whenTrue ← braceBlock fuel
      if ← accept toks .elseWord then
        let whenFalse ← braceBlock fuel
        return .branch (← tag toks start) condition whenTrue (some whenFalse)
      else
        return .branch (← tag toks start) condition whenTrue none
    | .printWord =>
      let _ ← next toks
      let value ← expression toks fuel
      return .print (← tag toks start) value
    | .returnWord =>
      let word ← next toks
      let here ← tok toks
      if Parser.startsExpr here.kind && here.line = word.line then
        let value ← expression toks fuel
        return .ret (← tag toks start) (some value)
      else
        return .ret (← tag toks start) none
    | _ => unexpected toks .statement

/-- Statements up to a token of the kind `stop` or the end of the source. -/
def statements (stop : Kind) : (fuel : Nat) → Procedure (List (Stmt Tag))
  | 0 => stuck
  | fuel + 1 => do
    let t ← tok toks
    if t.kind = stop ∨ t.kind = .eof then return []
    else if t.kind = .varWord then throw ⟨t, .lateDeclaration⟩
    else
      let first ← statement fuel
      let others ← statements stop fuel
      return first :: others

/-- The statements up to `stop` as a block without braces. -/
def plainBlock (stop : Kind) : (fuel : Nat) → Procedure (Block Tag)
  | 0 => stuck
  | fuel + 1 => do
    let start ← position
    let stmts ← statements stop fuel
    return .mk (← tag toks start) stmts

/-- A block in braces. The block inside is complete before it, so it has a number, which no node
keeps. -/
def braceBlock : (fuel : Nat) → Procedure (Block Tag)
  | 0 => stuck
  | fuel + 1 => do
    let start ← position
    let _ ← expect toks .leftBrace
    let inner ← plainBlock .rightBrace fuel
    let _ ← expect toks .rightBrace
    return .mk (← tag toks start) inner.stmts

end

def varDecl (fuel : Nat) : Procedure (VarDecl Tag) := do
  let start ← position
  let _ ← expect toks .varWord
  let name ← expect toks .ident
  let _ ← expect toks .colon
  let type ← expect toks .type
  if ← accept toks .assign then
    let init ← expression toks fuel
    return ⟨← tag toks start, name.lexeme, type.lexeme, some init⟩
  else
    return ⟨← tag toks start, name.lexeme, type.lexeme, none⟩

def varDecls : (fuel : Nat) → Procedure (List (VarDecl Tag))
  | 0 => stuck
  | fuel + 1 => do
    if (← tok toks).kind = .varWord then
      let first ← varDecl toks fuel
      let others ← varDecls fuel
      return first :: others
    else
      return []

/-- Declarations, then statements up to `stop`: the parts of a body. -/
def bodyParts (stop : Kind) (fuel : Nat) : Procedure (VarBlock Tag × Block Tag) := do
  let start ← position
  let decls ← varDecls toks fuel
  let vars := ⟨← tag toks start, decls⟩
  let block ← plainBlock toks stop fuel
  return (vars, block)

def body (fuel : Nat) : Procedure (Body Tag) := do
  let start ← position
  let _ ← expect toks .leftBrace
  let (vars, block) ← bodyParts toks .rightBrace fuel
  let _ ← expect toks .rightBrace
  return ⟨← tag toks start, vars, block⟩

def param : Procedure (Param Tag) := do
  let start ← position
  let name ← expect toks .ident
  let _ ← expect toks .colon
  let type ← expect toks .type
  return ⟨← tag toks start, name.lexeme, type.lexeme⟩

def paramList : (fuel : Nat) → Procedure (List (Param Tag))
  | 0 => stuck
  | fuel + 1 => do
    let first ← param toks
    if ← accept toks .comma then
      let others ← paramList fuel
      return first :: others
    else
      let _ ← expect toks .rightParen
      return [first]

def params (fuel : Nat) : Procedure (List (Param Tag)) := do
  if ← accept toks .rightParen then return [] else paramList toks fuel

def returnType : Procedure String := do
  if ← accept toks .colon then return (← expect toks .type).lexeme else return ""

def funcDef (fuel : Nat) : Procedure (FuncDef Tag) := do
  let start ← position
  let _ ← expect toks .funcWord
  let name ← expect toks .ident
  let _ ← expect toks .leftParen
  let params ← params toks fuel
  let returns ← returnType toks
  let body ← body toks fuel
  return ⟨← tag toks start, name.lexeme, params, returns, body⟩

def funcDefs : (fuel : Nat) → Procedure (List (FuncDef Tag))
  | 0 => stuck
  | fuel + 1 => do
    if (← tok toks).kind = .funcWord then
      let first ← funcDef toks fuel
      let others ← funcDefs fuel
      return first :: others
    else
      return []

def script (fuel : Nat) : Procedure (Script Tag) := do
  let start ← position
  let funcs ← funcDefs toks fuel
  let start' ← position
  let (vars, block) ← bodyParts toks .eof fuel
  let main := ⟨← tag toks start', vars, block⟩
  let _ ← expect toks .eof
  return ⟨← tag toks start, funcs, some main⟩

def wholeExpression (fuel : Nat) : Procedure (Expr Tag) := do
  let e ← expression toks fuel
  if (← tok toks).kind = .eof then return e else unexpected toks .endOfExpression

end

end ScriptAnalysis.Cursor
