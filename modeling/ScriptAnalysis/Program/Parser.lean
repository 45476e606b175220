import ScriptAnalysis.Program.Extent
import ScriptAnalysis.Program.SyntaxError
import ScriptAnalysis.Program.Tree
import ScriptAnalysis.Token.Lexer

/-!
# Reading programs

Each function reads one construct from the front of a list of tokens and answers it with the tokens
that are left. A result records that fewer tokens are left than a bound, which is why reading ends.
The token that marks the end of the source is not in the list; it stands for the token after the
last in errors and in the extents of empty nodes.
-/

namespace ScriptAnalysis.Parser

structure Parsed (α : Type) (bound : Nat) where
  value : α
  rest : List Token
  shorter : rest.length < bound

abbrev Result (α : Type) (bound : Nat) := Except SyntaxError (Parsed α bound)

/-- Whether the first token is of a kind. -/
def startsWith (kind : Kind) (ts : List Token) : Bool := ts.head?.any (·.kind = kind)

/-- Whether a token of this kind begins an expression. -/
def startsExpr : Kind → Bool
  | .int | .string | .trueWord | .falseWord | .ident | .leftParen | .minus | .bang => true
  | _ => false

/-- Whether a name is followed by an opening parenthesis. -/
def startsCall : List Token → Bool
  | t :: more => t.kind = .ident && startsWith .leftParen more
  | [] => false

/-- Whether the value of a return follows: it has to begin on the line of the word `return`. -/
def startsValue (word : Token) (ts : List Token) : Bool :=
  ts.head?.any fun t ↦ startsExpr t.kind && t.line = word.line

section

variable (endMark : Token)

def fail {α : Type} (expected : Expected) (ts : List Token) : Except SyntaxError α :=
  .error (.unexpected (ts.headD endMark) expected)

def expect (kind : Kind) (ts : List Token) : Result Token ts.length :=
  match ts with
  | [] => fail endMark (.token kind) []
  | t :: rest =>
    if t.kind = kind then .ok ⟨t, rest, by simp⟩ else fail endMark (.token kind) (t :: rest)

mutual

/-- An expression of operators up to a level: operands of the level below, joined from the left. -/
def binary (level : Nat) (ts : List Token) : Result (Expr Extent) ts.length :=
  match level with
  | 0 => unary ts
  | level + 1 => do
    let ⟨left, rest, h⟩ ← binary level ts
    chain level ts left rest h
termination_by 16 * ts.length + level + 3

/-- The operators of the next level, with their right operands, after what was read from `start`. -/
def chain (level : Nat) (start : List Token) (left : Expr Extent) (ts : List Token)
    (h : ts.length < start.length) : Result (Expr Extent) start.length :=
  match ts, h with
  | [], h => .ok ⟨left, [], h⟩
  | t :: more, h =>
    match Operator.ofKind? t.kind with
    | none => .ok ⟨left, t :: more, h⟩
    | some op =>
      if op.level = level + 1 then do
        let ⟨right, rest, h'⟩ ← binary level more
        let note := Extent.between endMark start rest
        chain level start (.binary note op left right) rest (by simp at h; omega)
      else
        .ok ⟨left, t :: more, h⟩
termination_by 16 * ts.length + level

def unary (ts : List Token) : Result (Expr Extent) ts.length :=
  match ts with
  | [] => primary []
  | t :: more =>
    if t.kind = .minus ∨ t.kind = .bang then do
      let ⟨operand, rest, h⟩ ← unary more
      let note := Extent.between endMark (t :: more) rest
      return ⟨.negate note t.lexeme operand, rest, by simp; omega⟩
    else
      primary (t :: more)
termination_by 16 * ts.length + 2

def primary (ts : List Token) : Result (Expr Extent) ts.length :=
  match ts with
  | [] => fail endMark .expression []
  | t :: more =>
    let note := Extent.between endMark (t :: more) more
    match t.kind with
    | .int => .ok ⟨.int note t.lexeme, more, by simp⟩
    | .string => .ok ⟨.string note t.lexeme, more, by simp⟩
    | .trueWord => .ok ⟨.bool note true, more, by simp⟩
    | .falseWord => .ok ⟨.bool note false, more, by simp⟩
    | .ident =>
      if startsCall (t :: more) then do
        let ⟨(note, callee, args), rest, h⟩ ← call (t :: more)
        return ⟨.call note callee args, rest, h⟩
      else
        .ok ⟨.ident note t.lexeme, more, by simp⟩
    | .leftParen => do
      let ⟨inner, rest, h⟩ ← binary 3 more
      let ⟨_, rest', h'⟩ ← expect endMark .rightParen rest
      let note := Extent.between endMark (t :: more) rest'
      return ⟨.parens note inner, rest', by simp; omega⟩
    | _ => fail endMark .expression (t :: more)
termination_by 16 * ts.length + 1

/-- A call: the extent of all of it, the name called and the arguments. -/
def call (ts : List Token) : Result (Extent × String × List (Expr Extent)) ts.length := do
  let ⟨name, rest₁, h₁⟩ ← expect endMark .ident ts
  let ⟨_, rest₂, h₂⟩ ← expect endMark .leftParen rest₁
  let ⟨args, rest₃, h₃⟩ ← arguments rest₂
  return ⟨(Extent.between endMark ts rest₃, name.lexeme, args), rest₃, by omega⟩
termination_by 16 * ts.length

/-- The arguments of a call after its opening parenthesis, and the closing one. -/
def arguments (ts : List Token) : Result (List (Expr Extent)) ts.length :=
  match ts with
  | [] => argumentList []
  | t :: more =>
    if t.kind = .rightParen then .ok ⟨[], more, by simp⟩ else argumentList (t :: more)
termination_by 16 * ts.length + 8

def argumentList (ts : List Token) : Result (List (Expr Extent)) ts.length := do
  let ⟨first, rest₁, h₁⟩ ← binary 3 ts
  if startsWith .comma rest₁ then
    let ⟨others, rest₂, h₂⟩ ← argumentList rest₁.tail
    return ⟨first :: others, rest₂, by simp at h₂; omega⟩
  else
    let ⟨_, rest₂, h₂⟩ ← expect endMark .rightParen rest₁
    return ⟨[first], rest₂, by omega⟩
termination_by 16 * ts.length + 7

end

def expression (ts : List Token) : Result (Expr Extent) ts.length :=
  binary endMark 3 ts

mutual

def statement (ts : List Token) : Result (Stmt Extent) ts.length :=
  match ts with
  | [] => fail endMark .statement []
  | t :: more =>
    match t.kind with
    | .ident =>
      if startsCall (t :: more) then do
        let ⟨(note, callee, args), rest, h⟩ ← call endMark (t :: more)
        return ⟨.call (.between endMark (t :: more) rest) note callee args, rest, h⟩
      else do
        let ⟨_, rest₁, h₁⟩ ← expect endMark .assign more
        let ⟨value, rest₂, h₂⟩ ← expression endMark rest₁
        let note := Extent.between endMark (t :: more) rest₂
        return ⟨.assign note t.lexeme value, rest₂, by simp; omega⟩
    | .whileWord => do
      let ⟨condition, rest₁, h₁⟩ ← expression endMark more
      let ⟨body, rest₂, h₂⟩ ← braceBlock rest₁
      let note := Extent.between endMark (t :: more) rest₂
      return ⟨.loop note condition body, rest₂, by simp; omega⟩
    | .ifWord => do
      let ⟨condition, rest₁, h₁⟩ ← expression endMark more
      let ⟨whenTrue, rest₂, h₂⟩ ← braceBlock rest₁
      if startsWith .elseWord rest₂ then
        let ⟨whenFalse, rest₃, h₃⟩ ← braceBlock rest₂.tail
        let note := Extent.between endMark (t :: more) rest₃
        return ⟨.branch note condition whenTrue (some whenFalse), rest₃, by simp at h₃; simp; omega⟩
      else
        let note := Extent.between endMark (t :: more) rest₂
        return ⟨.branch note condition whenTrue none, rest₂, by simp; omega⟩
    | .printWord => do
      let ⟨value, rest, h⟩ ← expression endMark more
      return ⟨.print (.between endMark (t :: more) rest) value, rest, by simp; omega⟩
    | .returnWord =>
      if startsValue t more then do
        let ⟨value, rest, h⟩ ← expression endMark more
        return ⟨.ret (.between endMark (t :: more) rest) (some value), rest, by simp; omega⟩
      else
        .ok ⟨.ret (.between endMark (t :: more) more) none, more, by simp⟩
    | _ => fail endMark .statement (t :: more)
termination_by 2 * ts.length

/-- Statements up to a token of the kind `stop` or the end of the source. -/
def statements (stop : Kind) (ts : List Token) : Result (List (Stmt Extent)) (ts.length + 1) :=
  match ts with
  | [] => .ok ⟨[], [], by simp⟩
  | t :: more =>
    if t.kind = stop then
      .ok ⟨[], t :: more, by simp⟩
    else if t.kind = .varWord then
      .error ⟨t, .lateDeclaration⟩
    else do
      let ⟨first, rest₁, h₁⟩ ← statement (t :: more)
      let ⟨others, rest₂, h₂⟩ ← statements stop rest₁
      return ⟨first :: others, rest₂, by omega⟩
termination_by 2 * ts.length + 1
decreasing_by all_goals omega

def braceBlock (ts : List Token) : Result (Block Extent) ts.length := do
  let ⟨_, rest₁, h₁⟩ ← expect endMark .leftBrace ts
  let ⟨stmts, rest₂, h₂⟩ ← statements .rightBrace rest₁
  let ⟨_, rest₃, h₃⟩ ← expect endMark .rightBrace rest₂
  return ⟨.mk (.between endMark ts rest₃) stmts, rest₃, by omega⟩
termination_by 2 * ts.length

end

def varDecl (ts : List Token) : Result (VarDecl Extent) ts.length := do
  let ⟨_, rest₁, h₁⟩ ← expect endMark .varWord ts
  let ⟨name, rest₂, h₂⟩ ← expect endMark .ident rest₁
  let ⟨_, rest₃, h₃⟩ ← expect endMark .colon rest₂
  let ⟨type, rest₄, h₄⟩ ← expect endMark .type rest₃
  if startsWith .assign rest₄ then
    let ⟨init, rest₅, h₅⟩ ← expression endMark rest₄.tail
    let note := Extent.between endMark ts rest₅
    return ⟨⟨note, name.lexeme, type.lexeme, some init⟩, rest₅, by simp at h₅; omega⟩
  else
    let note := Extent.between endMark ts rest₄
    return ⟨⟨note, name.lexeme, type.lexeme, none⟩, rest₄, by omega⟩

def varDecls (ts : List Token) : Result (List (VarDecl Extent)) (ts.length + 1) :=
  if startsWith .varWord ts then do
    let ⟨first, rest₁, h₁⟩ ← varDecl endMark ts
    let ⟨others, rest₂, h₂⟩ ← varDecls rest₁
    return ⟨first :: others, rest₂, by omega⟩
  else
    .ok ⟨[], ts, by simp⟩
termination_by ts.length

/-- Declarations, then statements up to `stop`: the parts of a body. -/
def bodyParts (stop : Kind) (ts : List Token) :
    Result (VarBlock Extent × Block Extent) (ts.length + 1) := do
  let ⟨decls, rest₁, h₁⟩ ← varDecls endMark ts
  let ⟨stmts, rest₂, h₂⟩ ← statements endMark stop rest₁
  let vars := ⟨.between endMark ts rest₁, decls⟩
  return ⟨(vars, .mk (.between endMark rest₁ rest₂) stmts), rest₂, by omega⟩

def body (ts : List Token) : Result (Body Extent) ts.length := do
  let ⟨_, rest₁, h₁⟩ ← expect endMark .leftBrace ts
  let ⟨(vars, block), rest₂, h₂⟩ ← bodyParts endMark .rightBrace rest₁
  let ⟨_, rest₃, h₃⟩ ← expect endMark .rightBrace rest₂
  return ⟨⟨.between endMark ts rest₃, vars, block⟩, rest₃, by omega⟩

def param (ts : List Token) : Result (Param Extent) ts.length := do
  let ⟨name, rest₁, h₁⟩ ← expect endMark .ident ts
  let ⟨_, rest₂, h₂⟩ ← expect endMark .colon rest₁
  let ⟨type, rest₃, h₃⟩ ← expect endMark .type rest₂
  return ⟨⟨.between endMark ts rest₃, name.lexeme, type.lexeme⟩, rest₃, by omega⟩

def paramList (ts : List Token) : Result (List (Param Extent)) ts.length := do
  let ⟨first, rest₁, h₁⟩ ← param endMark ts
  if startsWith .comma rest₁ then
    let ⟨others, rest₂, h₂⟩ ← paramList rest₁.tail
    return ⟨first :: others, rest₂, by simp at h₂; omega⟩
  else
    let ⟨_, rest₂, h₂⟩ ← expect endMark .rightParen rest₁
    return ⟨[first], rest₂, by omega⟩
termination_by ts.length

/-- The parameters of a definition after its opening parenthesis, and the closing one. -/
def params (ts : List Token) : Result (List (Param Extent)) ts.length :=
  match ts with
  | [] => paramList endMark []
  | t :: more =>
    if t.kind = .rightParen then .ok ⟨[], more, by simp⟩ else paramList endMark (t :: more)

/-- A colon and a type, or nothing. -/
def returnType (ts : List Token) : Result String (ts.length + 1) :=
  match ts with
  | [] => .ok ⟨"", [], by simp⟩
  | t :: more =>
    if t.kind = .colon then do
      let ⟨type, rest, h⟩ ← expect endMark .type more
      return ⟨type.lexeme, rest, by simp; omega⟩
    else
      .ok ⟨"", t :: more, by simp⟩

def funcDef (ts : List Token) : Result (FuncDef Extent) ts.length := do
  let ⟨_, rest₁, h₁⟩ ← expect endMark .funcWord ts
  let ⟨name, rest₂, h₂⟩ ← expect endMark .ident rest₁
  let ⟨_, rest₃, h₃⟩ ← expect endMark .leftParen rest₂
  let ⟨params, rest₄, h₄⟩ ← params endMark rest₃
  let ⟨returns, rest₅, h₅⟩ ← returnType endMark rest₄
  let ⟨body, rest₆, h₆⟩ ← body endMark rest₅
  let note := Extent.between endMark ts rest₆
  return ⟨⟨note, name.lexeme, params, returns, body⟩, rest₆, by omega⟩

def funcDefs (ts : List Token) : Result (List (FuncDef Extent)) (ts.length + 1) :=
  if startsWith .funcWord ts then do
    let ⟨first, rest₁, h₁⟩ ← funcDef endMark ts
    let ⟨others, rest₂, h₂⟩ ← funcDefs rest₁
    return ⟨first :: others, rest₂, by omega⟩
  else
    .ok ⟨[], ts, by simp⟩
termination_by ts.length

/-- A whole program. Nothing but the end of the source ends the statements of its main part. -/
def script (ts : List Token) : Except SyntaxError (Script Extent) := do
  let ⟨funcs, rest₁, _⟩ ← funcDefs endMark ts
  let ⟨(vars, block), rest₂, _⟩ ← bodyParts endMark .eof rest₁
  let main := ⟨.between endMark rest₁ rest₂, vars, block⟩
  return ⟨.between endMark ts rest₂, funcs, some main⟩

/-- A single expression and nothing after it. -/
def wholeExpression (ts : List Token) : Except SyntaxError (Expr Extent) := do
  let ⟨e, rest, _⟩ ← expression endMark ts
  if rest.isEmpty then return e else fail endMark .endOfExpression rest

end

end ScriptAnalysis.Parser
