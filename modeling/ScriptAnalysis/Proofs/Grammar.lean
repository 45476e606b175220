import ScriptAnalysis.Program.Parser

/-!
# The grammar of programs

Which lists of tokens are programs, and which tree each of them stands for. A rule says how the
tokens of a construct are put together from the tokens of its parts and what its node looks like;
it says nothing about how a tree is found. The rules are free of context but for two things. A
node that may have no tokens lies before the token that comes next, and a `return` has a value
exactly if the next token begins an expression on its line. Relations that need it therefore also
take the token that comes next.
-/

namespace ScriptAnalysis

/-- The extent of a node that has tokens. -/
def Extent.spanning (ts : List Token) (h : ts ≠ []) : Extent :=
  ⟨⟨(ts.head h).startPlace, (ts.getLast h).stopPlace⟩, String.join (ts.map Token.lexeme)⟩

theorem Extent.ofTokens_eq_spanning (next : Token) {used : List Token} (h : used ≠ []) :
    Extent.ofTokens next used = .spanning used h := by
  cases used with
  | nil => exact absurd rfl h
  | cons first more =>
    simp only [Extent.ofTokens, Extent.spanning, List.head_cons, List.getLast_eq_getLastD]

theorem Extent.between_append (endMark : Token) (used rest : List Token) :
    Extent.between endMark (used ++ rest) rest = .ofTokens (rest.headD endMark) used := by
  simp [Extent.between]

theorem Extent.between_eq_spanning (endMark : Token) {all used rest : List Token}
    (hall : all = used ++ rest) (h : used ≠ []) :
    Extent.between endMark all rest = .spanning used h := by
  rw [hall, Extent.between_append, Extent.ofTokens_eq_spanning]

namespace Grammar

open ScriptAnalysis.Parser (startsExpr)

mutual

/-- Operators of a level join operands of the level below from the left. Products are the first
level, sums the second and comparisons the third; at level zero there are no operators. -/
inductive Expression : Nat → List Token → Expr Extent → Prop
  | unary {ts : List Token} {e : Expr Extent} (h : Unary ts e) : Expression 0 ts e
  | operand {level : Nat} {ts : List Token} {e : Expr Extent} (h : Expression level ts e) :
    Expression (level + 1) ts e
  | operation {level : Nat} {ts us : List Token} {t : Token} {op : Operator}
    {left right : Expr Extent} (hl : Expression (level + 1) ts left)
    (hop : Operator.ofKind? t.kind = some op) (hlevel : op.level = level + 1)
    (hr : Expression level us right) :
    Expression (level + 1) (ts ++ t :: us)
      (.binary (.spanning (ts ++ t :: us) (by simp)) op left right)

inductive Unary : List Token → Expr Extent → Prop
  | negate {t : Token} {ts : List Token} {e : Expr Extent} (ht : t.kind = .minus ∨ t.kind = .bang)
    (h : Unary ts e) :
    Unary (t :: ts) (.negate (.spanning (t :: ts) (by simp)) t.lexeme e)
  | primary {ts : List Token} {e : Expr Extent} (h : Primary ts e) : Unary ts e

inductive Primary : List Token → Expr Extent → Prop
  | int {t : Token} (ht : t.kind = .int) :
    Primary [t] (.int (.spanning [t] (by simp)) t.lexeme)
  | string {t : Token} (ht : t.kind = .string) :
    Primary [t] (.string (.spanning [t] (by simp)) t.lexeme)
  | true {t : Token} (ht : t.kind = .trueWord) :
    Primary [t] (.bool (.spanning [t] (by simp)) .true)
  | false {t : Token} (ht : t.kind = .falseWord) :
    Primary [t] (.bool (.spanning [t] (by simp)) .false)
  | ident {t : Token} (ht : t.kind = .ident) :
    Primary [t] (.ident (.spanning [t] (by simp)) t.lexeme)
  | call {ts : List Token} {note : Extent} {callee : String} {args : List (Expr Extent)}
    (h : Call ts note callee args) : Primary ts (.call note callee args)
  | parens {l r : Token} {ts : List Token} {e : Expr Extent} (hl : l.kind = .leftParen)
    (h : Expression 3 ts e) (hr : r.kind = .rightParen) :
    Primary (l :: (ts ++ [r])) (.parens (.spanning (l :: (ts ++ [r])) (by simp)) e)

/-- A call, given by its extent, the name called and the arguments. -/
inductive Call : List Token → Extent → String → List (Expr Extent) → Prop
  | mk {name l : Token} {ts : List Token} {args : List (Expr Extent)} (hn : name.kind = .ident)
    (hl : l.kind = .leftParen) (h : Arguments ts args) :
    Call (name :: l :: ts) (.spanning (name :: l :: ts) (by simp)) name.lexeme args

/-- The arguments of a call after its opening parenthesis, and the closing one. -/
inductive Arguments : List Token → List (Expr Extent) → Prop
  | none {r : Token} (hr : r.kind = .rightParen) : Arguments [r] []
  | some {ts : List Token} {args : List (Expr Extent)} (h : ArgumentList ts args) :
    Arguments ts args

inductive ArgumentList : List Token → List (Expr Extent) → Prop
  | last {ts : List Token} {e : Expr Extent} {r : Token} (h : Expression 3 ts e)
    (hr : r.kind = .rightParen) : ArgumentList (ts ++ [r]) [e]
  | more {ts us : List Token} {e : Expr Extent} {args : List (Expr Extent)} {comma : Token}
    (h : Expression 3 ts e) (hc : comma.kind = .comma) (hs : ArgumentList us args) :
    ArgumentList (ts ++ comma :: us) (e :: args)

end

/-- Whether the value of a return follows: the next token begins an expression on its line. -/
def TakesValue (word next : Token) : Prop := startsExpr next.kind = true ∧ next.line = word.line

mutual

/-- The tokens of a statement, the token that comes next, and the statement. -/
inductive Statement : List Token → Token → Stmt Extent → Prop
  | assign {next name eq : Token} {ts : List Token} {e : Expr Extent} (hn : name.kind = .ident)
    (heq : eq.kind = .assign) (h : Expression 3 ts e) :
    Statement (name :: eq :: ts) next
      (.assign (.spanning (name :: eq :: ts) (by simp)) name.lexeme e)
  | call {next : Token} {ts : List Token} {note : Extent} {callee : String}
    {args : List (Expr Extent)} (h : Call ts note callee args) :
    Statement ts next (.call note note callee args)
  | loop {next word : Token} {ts us : List Token} {e : Expr Extent} {body : Block Extent}
    (hw : word.kind = .whileWord) (h : Expression 3 ts e) (hb : BraceBlock us body) :
    Statement (word :: (ts ++ us)) next
      (.loop (.spanning (word :: (ts ++ us)) (by simp)) e body)
  | branch {next word : Token} {ts us : List Token} {e : Expr Extent} {whenTrue : Block Extent}
    (hw : word.kind = .ifWord) (h : Expression 3 ts e) (ht : BraceBlock us whenTrue) :
    Statement (word :: (ts ++ us)) next
      (.branch (.spanning (word :: (ts ++ us)) (by simp)) e whenTrue none)
  | branchElse {next word other : Token} {ts us vs : List Token} {e : Expr Extent}
    {whenTrue whenFalse : Block Extent} (hw : word.kind = .ifWord) (h : Expression 3 ts e)
    (ht : BraceBlock us whenTrue) (ho : other.kind = .elseWord) (hf : BraceBlock vs whenFalse) :
    Statement (word :: (ts ++ us ++ other :: vs)) next
      (.branch (.spanning (word :: (ts ++ us ++ other :: vs)) (by simp)) e whenTrue
        (some whenFalse))
  | print {next word : Token} {ts : List Token} {e : Expr Extent} (hw : word.kind = .printWord)
    (h : Expression 3 ts e) :
    Statement (word :: ts) next (.print (.spanning (word :: ts) (by simp)) e)
  | ret {next word : Token} (hw : word.kind = .returnWord) (hn : ¬ TakesValue word next) :
    Statement [word] next (.ret (.spanning [word] (by simp)) none)
  | retValue {next word first : Token} {ts : List Token} {e : Expr Extent}
    (hw : word.kind = .returnWord) (hv : TakesValue word first) (h : Expression 3 (first :: ts) e) :
    Statement (word :: first :: ts) next
      (.ret (.spanning (word :: first :: ts) (by simp)) (some e))

inductive Statements : List Token → Token → List (Stmt Extent) → Prop
  | nil {next : Token} : Statements [] next []
  | cons {next : Token} {ts us : List Token} {s : Stmt Extent} {ss : List (Stmt Extent)}
    (h : Statement ts (us.headD next) s) (hs : Statements us next ss) :
    Statements (ts ++ us) next (s :: ss)

inductive BraceBlock : List Token → Block Extent → Prop
  | mk {l r : Token} {ts : List Token} {ss : List (Stmt Extent)} (hl : l.kind = .leftBrace)
    (h : Statements ts r ss) (hr : r.kind = .rightBrace) :
    BraceBlock (l :: (ts ++ [r])) (.mk (.spanning (l :: (ts ++ [r])) (by simp)) ss)

end

inductive Declaration : List Token → VarDecl Extent → Prop
  | plain {word name colon type : Token} (hw : word.kind = .varWord) (hn : name.kind = .ident)
    (hc : colon.kind = .colon) (ht : type.kind = .type) :
    Declaration [word, name, colon, type]
      ⟨.spanning [word, name, colon, type] (by simp), name.lexeme, type.lexeme, none⟩
  | initial {word name colon type eq : Token} {ts : List Token} {e : Expr Extent}
    (hw : word.kind = .varWord) (hn : name.kind = .ident) (hc : colon.kind = .colon)
    (ht : type.kind = .type) (heq : eq.kind = .assign) (h : Expression 3 ts e) :
    Declaration (word :: name :: colon :: type :: eq :: ts)
      ⟨.spanning (word :: name :: colon :: type :: eq :: ts) (by simp), name.lexeme, type.lexeme,
        some e⟩

inductive Declarations : List Token → List (VarDecl Extent) → Prop
  | nil : Declarations [] []
  | cons {ts us : List Token} {d : VarDecl Extent} {ds : List (VarDecl Extent)}
    (h : Declaration ts d) (hs : Declarations us ds) : Declarations (ts ++ us) (d :: ds)

/-- The variables and the statements of a body, with the token that comes next. -/
inductive Parts : List Token → Token → VarBlock Extent → Block Extent → Prop
  | mk {next : Token} {ts us : List Token} {ds : List (VarDecl Extent)} {ss : List (Stmt Extent)}
    (hd : Declarations ts ds) (hs : Statements us next ss) :
    Parts (ts ++ us) next ⟨.ofTokens (us.headD next) ts, ds⟩ (.mk (.ofTokens next us) ss)

inductive FunctionBody : List Token → Body Extent → Prop
  | mk {l r : Token} {ts : List Token} {vars : VarBlock Extent} {block : Block Extent}
    (hl : l.kind = .leftBrace) (h : Parts ts r vars block) (hr : r.kind = .rightBrace) :
    FunctionBody (l :: (ts ++ [r])) ⟨.spanning (l :: (ts ++ [r])) (by simp), vars, block⟩

inductive Parameter : List Token → Param Extent → Prop
  | mk {name colon type : Token} (hn : name.kind = .ident) (hc : colon.kind = .colon)
    (ht : type.kind = .type) :
    Parameter [name, colon, type]
      ⟨.spanning [name, colon, type] (by simp), name.lexeme, type.lexeme⟩

inductive ParameterList : List Token → List (Param Extent) → Prop
  | last {ts : List Token} {p : Param Extent} {r : Token} (h : Parameter ts p)
    (hr : r.kind = .rightParen) : ParameterList (ts ++ [r]) [p]
  | more {ts us : List Token} {p : Param Extent} {ps : List (Param Extent)} {comma : Token}
    (h : Parameter ts p) (hc : comma.kind = .comma) (hs : ParameterList us ps) :
    ParameterList (ts ++ comma :: us) (p :: ps)

/-- The parameters of a definition after its opening parenthesis, and the closing one. -/
inductive Parameters : List Token → List (Param Extent) → Prop
  | none {r : Token} (hr : r.kind = .rightParen) : Parameters [r] []
  | some {ts : List Token} {ps : List (Param Extent)} (h : ParameterList ts ps) : Parameters ts ps

inductive ReturnType : List Token → String → Prop
  | none : ReturnType [] ""
  | some {colon type : Token} (hc : colon.kind = .colon) (ht : type.kind = .type) :
    ReturnType [colon, type] type.lexeme

inductive Function : List Token → FuncDef Extent → Prop
  | mk {word name l : Token} {ts us vs : List Token} {ps : List (Param Extent)} {returns : String}
    {body : Body Extent} (hw : word.kind = .funcWord) (hn : name.kind = .ident)
    (hl : l.kind = .leftParen) (hp : Parameters ts ps) (hr : ReturnType us returns)
    (hb : FunctionBody vs body) :
    Function (word :: name :: l :: (ts ++ us ++ vs))
      ⟨.spanning (word :: name :: l :: (ts ++ us ++ vs)) (by simp), name.lexeme, ps, returns, body⟩

inductive Functions : List Token → List (FuncDef Extent) → Prop
  | nil : Functions [] []
  | cons {ts us : List Token} {f : FuncDef Extent} {fs : List (FuncDef Extent)}
    (h : Function ts f) (hs : Functions us fs) : Functions (ts ++ us) (f :: fs)

/-- A whole program with the mark at its end. -/
inductive Program : List Token → Script Extent → Prop
  | mk {ts us : List Token} {stop : Token} {fs : List (FuncDef Extent)} {vars : VarBlock Extent}
    {block : Block Extent} (hf : Functions ts fs) (hm : Parts us stop vars block)
    (hstop : stop.kind = .eof) :
    Program (ts ++ us ++ [stop])
      ⟨.ofTokens stop (ts ++ us), fs, some ⟨.ofTokens stop us, vars, block⟩⟩

/-- A single expression with the mark at its end. -/
inductive Standalone : List Token → Expr Extent → Prop
  | mk {ts : List Token} {stop : Token} {e : Expr Extent} (h : Expression 3 ts e)
    (hstop : stop.kind = .eof) : Standalone (ts ++ [stop]) e

mutual

theorem Expression.starts {level : Nat} {ts : List Token} {e : Expr Extent} :
    Expression level ts e → ∃ t more, ts = t :: more ∧ startsExpr t.kind = true
  | .unary h => h.starts
  | .operand h => h.starts
  | .operation hl _ _ _ => by
    obtain ⟨t, more, rfl, ht⟩ := hl.starts
    exact ⟨t, _, rfl, ht⟩

theorem Unary.starts {ts : List Token} {e : Expr Extent} :
    Unary ts e → ∃ t more, ts = t :: more ∧ startsExpr t.kind = true
  | .negate ht _ => ⟨_, _, rfl, by rcases ht with ht | ht <;> rw [ht] <;> rfl⟩
  | .primary h => by
    obtain ⟨t, more, hts, -, ht⟩ := h.starts
    exact ⟨t, more, hts, ht⟩

theorem Primary.starts {ts : List Token} {e : Expr Extent} :
    Primary ts e → ∃ t more, ts = t :: more ∧ ¬ (t.kind = .minus ∨ t.kind = .bang) ∧
      startsExpr t.kind = true
  | .int ht | .string ht | .true ht | .false ht | .ident ht | .call (.mk ht _ _) | .parens ht _ _ =>
    ⟨_, _, rfl, by simp [ht], by rw [ht]; rfl⟩

end

theorem Expression.ne_nil {level : Nat} {ts : List Token} {e : Expr Extent}
    (h : Expression level ts e) : ts ≠ [] := by
  obtain ⟨t, more, rfl, _⟩ := h.starts
  simp

theorem Unary.ne_nil {ts : List Token} {e : Expr Extent} (h : Unary ts e) : ts ≠ [] := by
  obtain ⟨t, more, rfl, _⟩ := h.starts
  simp

theorem ArgumentList.starts {ts : List Token} {args : List (Expr Extent)}
    (h : ArgumentList ts args) : ∃ t more, ts = t :: more ∧ t.kind ≠ .rightParen := by
  cases h with
  | last h hr | more h hc hs =>
    obtain ⟨t, more, rfl, ht⟩ := h.starts
    refine ⟨t, _, rfl, ?_⟩
    intro hkind
    simp [hkind, startsExpr] at ht

theorem ArgumentList.closes {ts : List Token} {args : List (Expr Extent)} :
    ArgumentList ts args → ∃ before r, ts = before ++ [r] ∧ r.kind = .rightParen
  | .last _ hr => ⟨_, _, rfl, hr⟩
  | @ArgumentList.more us _ _ _ comma _ _ hs => by
    obtain ⟨before, r, rfl, hr⟩ := hs.closes
    exact ⟨us ++ comma :: before, r, by simp, hr⟩

theorem Call.closes {ts : List Token} {note : Extent} {callee : String} {args : List (Expr Extent)}
    (h : Call ts note callee args) : ∃ before r, ts = before ++ [r] ∧ r.kind = .rightParen := by
  cases h with
  | @mk name l ts args _ _ h =>
    cases h with
    | @none r hr => exact ⟨[name, l], r, rfl, hr⟩
    | some h =>
      obtain ⟨before, r, rfl, hr⟩ := h.closes
      exact ⟨name :: l :: before, r, rfl, hr⟩

end Grammar

end ScriptAnalysis
