import ScriptAnalysis.Analysis.Infer

/-!
# The static semantics of programs

When a program is well formed, told by rules about its tree alone. Nothing is walked, reported or
logged here, and no rule gives anything the type `error`. Functions are visible in every body; a
body sees its parameters and, one after the other, the variables it declares.
-/

namespace ScriptAnalysis

/-- The type that a declaration can write. -/
def writtenType? (name : String) : Option Prim :=
  match name with
  | "Int" => some .int
  | "Bool" => some .bool
  | "String" => some .string
  | _ => none

/-- The return type of a definition, which may write none. -/
def writtenReturn? (name : String) : Option Prim :=
  if name = "" then some .void else writtenType? name

mutual

inductive HasType {α : Type} (env : Env) : Expr α → Ty → Prop
  | int {note : α} {digits : String} : HasType env (.int note digits) .int
  | string {note : α} {lexeme : String} : HasType env (.string note lexeme) .string
  | bool {note : α} {value : Bool} : HasType env (.bool note value) .bool
  | ident {note : α} {name : String} {type : Ty} (h : env name = some type) :
    HasType env (.ident note name) type
  | minus {note : α} {e : Expr α} (h : HasType env e .int) : HasType env (.negate note "-" e) .int
  | not {note : α} {e : Expr α} (h : HasType env e .bool) : HasType env (.negate note "!" e) .bool
  | parens {note : α} {e : Expr α} {type : Ty} (h : HasType env e type) :
    HasType env (.parens note e) type
  | arithmetic {note : α} {op : Operator} {left right : Expr α} (hop : op.level ≠ 3)
    (hl : HasType env left .int) (hr : HasType env right .int) :
    HasType env (.binary note op left right) .int
  | comparison {note : α} {op : Operator} {left right : Expr α} (hop : op.level = 3)
    (hl : HasType env left .int) (hr : HasType env right .int) :
    HasType env (.binary note op left right) .bool
  | call {note : α} {callee : String} {args : List (Expr α)} {signature : Signature}
    (h : env callee = some (.func signature)) (hargs : HaveTypes env args signature.params) :
    HasType env (.call note callee args) (.prim signature.returns)

inductive HaveTypes {α : Type} (env : Env) : List (Expr α) → List Prim → Prop
  | nil : HaveTypes env [] []
  | cons {e : Expr α} {others : List (Expr α)} {p : Prim} {ps : List Prim}
    (h : HasType env e (.prim p)) (hs : HaveTypes env others ps) :
    HaveTypes env (e :: others) (p :: ps)

end

mutual

/-- A statement of a body that returns `returns`. What returns `void` returns no value. -/
inductive Stmt.WellTyped {α : Type} (env : Env) (returns : Prim) : Stmt α → Prop
  | assign {note : α} {target : String} {value : Expr α} {type : Ty} (h : env target = some type)
    (hv : HasType env value type) : Stmt.WellTyped env returns (.assign note target value)
  | loop {note : α} {condition : Expr α} {body : Block α} (hc : HasType env condition .bool)
    (hb : Block.WellTyped env returns body) :
    Stmt.WellTyped env returns (.loop note condition body)
  | branch {note : α} {condition : Expr α} {whenTrue : Block α}
    (hc : HasType env condition .bool) (ht : Block.WellTyped env returns whenTrue) :
    Stmt.WellTyped env returns (.branch note condition whenTrue none)
  | branchElse {note : α} {condition : Expr α} {whenTrue whenFalse : Block α}
    (hc : HasType env condition .bool) (ht : Block.WellTyped env returns whenTrue)
    (hf : Block.WellTyped env returns whenFalse) :
    Stmt.WellTyped env returns (.branch note condition whenTrue (some whenFalse))
  | print {note : α} {value : Expr α} {type : Ty} (hv : HasType env value type) :
    Stmt.WellTyped env returns (.print note value)
  | ret {note : α} (h : returns = .void) : Stmt.WellTyped env returns (.ret note none)
  | retValue {note : α} {value : Expr α} (h : returns ≠ .void)
    (hv : HasType env value (.prim returns)) :
    Stmt.WellTyped env returns (.ret note (some value))
  | call {note callNote : α} {callee : String} {args : List (Expr α)} {type : Ty}
    (h : HasType env (.call callNote callee args) type) :
    Stmt.WellTyped env returns (.call note callNote callee args)

inductive Block.WellTyped {α : Type} (env : Env) (returns : Prim) : Block α → Prop
  | mk {note : α} {stmts : List (Stmt α)} (h : Stmt.AllWellTyped env returns stmts) :
    Block.WellTyped env returns (.mk note stmts)

inductive Stmt.AllWellTyped {α : Type} (env : Env) (returns : Prim) : List (Stmt α) → Prop
  | nil : Stmt.AllWellTyped env returns []
  | cons {first : Stmt α} {others : List (Stmt α)} (h : Stmt.WellTyped env returns first)
    (hs : Stmt.AllWellTyped env returns others) : Stmt.AllWellTyped env returns (first :: others)

end

/-- The names a body sees: its parameters and variables, the latest first, and all functions. -/
structure Context where
  locals : List (String × Prim)
  functions : List (String × Signature)

namespace Context

def env (Γ : Context) : Env := fun name ↦
  match Γ.locals.lookup name with
  | some p => some (.prim p)
  | none => (Γ.functions.lookup name).map .func

def bind (Γ : Context) (name : String) (type : Prim) : Context :=
  { Γ with locals := (name, type) :: Γ.locals }

end Context

/-- Declarations lead from one context to another. Each name is new, and each variable that is given
a value is given one of its type, found before the variable is there. -/
inductive Declares {α : Type} : Context → List (VarDecl α) → Context → Prop
  | nil {Γ : Context} : Declares Γ [] Γ
  | cons {Γ Γ' : Context} {d : VarDecl α} {ds : List (VarDecl α)} {type : Prim}
    (hname : Γ.env d.name = none) (htype : writtenType? d.type = some type)
    (hinit : ∀ e ∈ d.init, HasType Γ.env e (.prim type))
    (hs : Declares (Γ.bind d.name type) ds Γ') :
    Declares Γ (d :: ds) Γ'

def Body.WellTyped {α : Type} (Γ : Context) (returns : Prim) (b : Body α) : Prop :=
  ∃ Γ', Declares Γ b.vars.decls Γ' ∧ b.block.WellTyped Γ'.env returns

/-- The signature that a definition writes. -/
def FuncDef.writtenSignature? {α : Type} (f : FuncDef α) : Option Signature := do
  let params ← f.params.mapM fun p ↦ writtenType? p.type
  let returns ← writtenReturn? f.returns
  return ⟨params, returns⟩

/-- The parameters of a definition have names of their own, and its body is well typed among them
and the functions. -/
def FuncDef.WellTyped {α : Type} (functions : List (String × Signature)) (f : FuncDef α) : Prop :=
  (f.params.map Param.name).Nodup ∧ ∃ signature, f.writtenSignature? = some signature ∧
    f.body.WellTyped ⟨(f.params.map Param.name).zip signature.params, functions⟩ signature.returns

/-- Each function has a name of its own and is visible everywhere by its signature. -/
def Script.WellFormed {α : Type} (s : Script α) : Prop :=
  (s.funcs.map FuncDef.name).Nodup ∧
    ∃ signatures, s.funcs.mapM FuncDef.writtenSignature? = some signatures ∧
      (∀ f ∈ s.funcs, f.WellTyped ((s.funcs.map FuncDef.name).zip signatures)) ∧
      ∀ main ∈ s.main, main.WellTyped ⟨[], (s.funcs.map FuncDef.name).zip signatures⟩ .void

end ScriptAnalysis
