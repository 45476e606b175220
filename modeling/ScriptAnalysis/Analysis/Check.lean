import ScriptAnalysis.Analysis.Declare
import ScriptAnalysis.Analysis.Infer

/-!
# Checking programs

The second walk infers the type of every expression and checks every declaration and statement
against the scope it stands in. A function that a later definition of its name replaces is not
walked, since the scope under its name belongs to the later one. Blocks are watched for statements
after a return, and the variables and parameters of a body for never being read.
-/

namespace ScriptAnalysis

open ScopeTable (globalId globalName mainName)

namespace Rule

def assignment (target : String) (bound : Option Ty) (got : Ty) : Option Violation :=
  match bound with
  | none => some (.undefinedTarget target)
  | some declared => if declared = got then none else some (.assignedType got target declared)

def loopCondition (text : String) (got : Ty) : Option Violation :=
  if got = .bool then none else some (.loopCondition text got)

def branchCondition (text : String) (got : Ty) : Option Violation :=
  if got = .bool then none else some (.branchCondition text got)

def printing (got : Ty) : Option Violation := if got = .error then some .unprintable else none

/-- A scope without a return type is left like one that returns `void`. -/
def returning (scope : String) (returns : Option Ty) (value : Option Ty) : Option Violation :=
  let expected := returns.getD .void
  match value with
  | none => if expected = .void then none else some (.missingValue scope expected)
  | some got =>
    if expected = .void then some (.valueFromVoid scope)
    else if got = .error ∨ got = expected then none
    else some (.returnedType scope expected got)

end Rule

/-- What statements are checked against: the names around them, and the name and return type of
their scope. -/
structure Setting where
  env : Env
  scope : String
  returns : Option Ty

def ScopeTable.setting (t : ScopeTable) (id : ScopeId) : Setting :=
  match t.scope? id with
  | none => ⟨t.env id, "", none⟩
  | some s => ⟨t.env id, s.name, s.returns⟩

def verdict (node : Tag) : Option Violation → List Event
  | none => []
  | some violation => [.reported node violation]

/-- Whether the next statement of a block can be reached. Silence is kept after the first warning
of a block, and throughout a block that is not watched. -/
inductive Flow where
  | live
  | returned
  | silent
  deriving DecidableEq

namespace Flow

def after (flow : Flow) (isReturn : Bool) : Flow :=
  match flow with
  | live => if isReturn then returned else live
  | returned | silent => silent

def warning (flow : Flow) (node : Tag) : List Event :=
  if flow = returned then [.warned node.span .unreachable] else []

end Flow

mutual

def Stmt.check (setting : Setting) : Stmt Tag → List Event
  | .assign note target value =>
    let value := value.infer setting.env
    value.events ++ verdict note (Rule.assignment target (setting.env target) value.type)
  | .loop note condition body =>
    let found := condition.infer setting.env
    found.events ++ body.check setting .live
      ++ verdict note (Rule.loopCondition condition.note.text found.type)
  | .branch note condition whenTrue none =>
    let found := condition.infer setting.env
    found.events ++ whenTrue.check setting .live
      ++ verdict note (Rule.branchCondition condition.note.text found.type)
  | .branch note condition whenTrue (some whenFalse) =>
    let found := condition.infer setting.env
    found.events ++ whenTrue.check setting .live ++ whenFalse.check setting .live
      ++ verdict note (Rule.branchCondition condition.note.text found.type)
  | .print note value =>
    let value := value.infer setting.env
    value.events ++ verdict note (Rule.printing value.type)
  | .ret note none => verdict note (Rule.returning setting.scope setting.returns none)
  | .ret note (some value) =>
    let value := value.infer setting.env
    value.events ++ verdict note (Rule.returning setting.scope setting.returns (some value.type))
  | .call _ callNote callee args => ((Expr.call callNote callee args).infer setting.env).events

def Block.check (setting : Setting) (flow : Flow) : Block Tag → List Event
  | .mk _ stmts => Stmt.checkAll setting flow stmts

def Stmt.checkAll (setting : Setting) (flow : Flow) : List (Stmt Tag) → List Event
  | [] => []
  | first :: others =>
    flow.warning first.note ++ first.check setting
      ++ Stmt.checkAll setting (flow.after first.isReturn) others

end

/-- A variable or parameter that is watched for being read. -/
structure Local where
  name : String
  span : Span

/-- The scopes after some declarations, what happened, and the variables that came to be. -/
structure Declared where
  scopes : ScopeTable
  events : List Event
  locals : List Local

/-- A name that is visible already, or a value of another type, binds the variable to `error`. -/
def VarDecl.check (t : ScopeTable) (scope : ScopeId) (d : VarDecl Tag) : Declared :=
  let init := d.init.map (Expr.infer (t.env scope))
  let events := (init.map (·.events)).getD []
  let type := Ty.prim (Prim.declared d.type)
  if (t.resolve? scope d.name).isSome then
    ⟨t.define scope d.name (some .error),
      events ++ [.reported d.note (.duplicateVariable d.name)], []⟩
  else
    match init.filter (·.type ≠ type) with
    | some wrong =>
      ⟨t.define scope d.name (some .error),
        events ++ [.typed d.note .error, .reported d.note (.initialType wrong.type d.type)], []⟩
    | none => ⟨t.define scope d.name (some type), events, [⟨d.name, d.note.span⟩]⟩

def VarDecl.checkAll (t : ScopeTable) (scope : ScopeId) : List (VarDecl Tag) → Declared
  | [] => ⟨t, [], []⟩
  | first :: others =>
    let first := first.check t scope
    let others := VarDecl.checkAll first.scopes scope others
    ⟨others.scopes, first.events ++ others.events, first.locals ++ others.locals⟩

/-- A local that was never read is warned of, unless its name begins with an underscore or the name
came to be bound to `error`. -/
def Local.warning (t : ScopeTable) (scope : ScopeId) (l : Local) : List Event :=
  let bound := (t.local? scope l.name).bind (·.type)
  if l.name.toList.head? = some '_' ∨ bound = some .error then []
  else [.warned l.span (.unused l.name)]

/-- Closes the watch over the locals of a body after its events. -/
def closeLocals (t : ScopeTable) (scope : ScopeId) (events : List Event) (locals : List Local) :
    Walk :=
  let unread := locals.filter fun l ↦ !events.any (Event.reads l.name)
  if unread.any (·.name = "") then ⟨t, events, some .emptyName⟩
  else ⟨t, events ++ unread.flatMap (Local.warning t scope), none⟩

/-- Walks a body in its scope; `closing` is what happens after its last statement. -/
def Body.check (t : ScopeTable) (scope : ScopeId) (params : List Local) (closing : List Event)
    (body : Body Tag) : Walk :=
  let declared := VarDecl.checkAll t scope body.vars.decls
  let setting := declared.scopes.setting scope
  let events := declared.events ++ body.block.check setting .live ++ closing
  closeLocals declared.scopes scope events (params ++ declared.locals)

/-- Walks inside the child of the global scope that has a name. -/
def ScopeTable.within (t : ScopeTable) (name : String) (walk : ScopeId → Walk) : Walk :=
  match t.childNamed? globalId name with
  | none => ⟨t, [], some (.missingScope name globalName)⟩
  | some scope =>
    let inner := walk scope
    let leaving := if inner.fault.isNone then [Event.left .inferring name scope] else []
    ⟨inner.scopes, .entered .inferring name scope :: inner.events ++ leaving, inner.fault⟩

/-- Reports of the parameters whose name came before; `seen` holds the names so far. -/
def Param.duplicates (function : String) (seen : List String) : List (Param Tag) → List Event
  | [] => []
  | p :: others =>
    verdict p.note (if p.name ∈ seen then some (.duplicateParameter p.name function) else none)
      ++ Param.duplicates function (p.name :: seen) others

/-- The parameters bound in a scope, each name once. -/
def Param.locals (t : ScopeTable) (scope : ScopeId) (seen : List String) :
    List (Param Tag) → List Local
  | [] => []
  | p :: others =>
    let later := Param.locals t scope (p.name :: seen) others
    if p.name ∉ seen ∧ (t.local? scope p.name).isSome then ⟨p.name, p.note.span⟩ :: later else later

/-- The warning that a function which returns something may end without a return. -/
def FuncDef.fallThrough (returns : Option Ty) (f : FuncDef Tag) : List Event :=
  if returns = some .void ∨ f.body.block.stmts.any Stmt.isReturn then []
  else [.warned f.note.span (.missingReturn f.name returns)]

/-- `seen` holds the names of the functions before, and `shadowed` says that one behind has the same
name. -/
def FuncDef.check (t : ScopeTable) (seen : List String) (shadowed : Bool) (f : FuncDef Tag) : Walk :=
  let reports :=
    verdict f.note (if f.name ∈ seen then some (.duplicateFunction f.name) else none)
      ++ Param.duplicates f.name [] f.params
  if shadowed then
    ⟨t, reports ++ [.skipped f.name f.note.line], none⟩
  else
    let inner := t.within f.name fun scope ↦
      f.body.check t scope (Param.locals t scope [] f.params)
        (f.fallThrough (t.setting scope).returns)
    ⟨inner.scopes, reports ++ inner.events, inner.fault⟩

def FuncDef.checkAll (t : ScopeTable) (seen : List String) : List (FuncDef Tag) → Walk
  | [] => ⟨t, [], none⟩
  | first :: others =>
    (first.check t seen (others.any (·.name = first.name))).andThen fun t ↦
      FuncDef.checkAll t (first.name :: seen) others

def Body.checkMain (t : ScopeTable) (body : Body Tag) : Walk :=
  t.within mainName fun scope ↦ body.check t scope [] []

def Script.check (t : ScopeTable) (s : Script Tag) : Walk :=
  (FuncDef.checkAll t [] s.funcs).andThen fun t ↦
    match s.main with
    | none => ⟨t, [], none⟩
    | some main => main.checkMain t

/-- Parts of a body can be walked by themselves: then they stand in the global scope, and neither
their blocks nor their variables are watched. -/
def Node.check (t : ScopeTable) : Node Tag → Walk
  | .script s => s.check t
  | .func f => f.check t [] false
  | .main b => b.checkMain t
  | .param _ => ⟨t, [], none⟩
  | .body b =>
    let declared := VarDecl.checkAll t globalId b.vars.decls
    let setting := declared.scopes.setting globalId
    ⟨declared.scopes, declared.events ++ b.block.check setting .silent, none⟩
  | .vars v =>
    let declared := VarDecl.checkAll t globalId v.decls
    ⟨declared.scopes, declared.events, none⟩
  | .decl d =>
    let declared := d.check t globalId
    ⟨declared.scopes, declared.events, none⟩
  | .block b => ⟨t, b.check (t.setting globalId) .silent, none⟩
  | .stmt s => ⟨t, s.check (t.setting globalId), none⟩
  | .expr e => ⟨t, (e.infer (t.env globalId)).events, none⟩

end ScriptAnalysis
