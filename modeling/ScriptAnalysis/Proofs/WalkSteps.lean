import ScriptAnalysis.Analysis.Check

/-!
# The steps of a walk

An expression is typed after its operands, a statement is judged after its parts, and a declaration
after its value. These are all the steps there are, so what the events of a walk have to do with the
nodes that are walked over can be shown step by step.
-/

namespace ScriptAnalysis

/-- The violations that can be reported of an expression that is no name. -/
inductive Expr.Reports : Expr Tag → Violation → Prop
  | negate {note : Tag} {op : String} {operand : Expr Tag} (type : Ty) :
      Reports (.negate note op operand) (.negation op type)
  | parens {note : Tag} {inner : Expr Tag} : Reports (.parens note inner) .parenthesizedError
  | product {note : Tag} {op : Operator} {left right : Expr Tag} (type type' : Ty) :
      Reports (.binary note op left right) (.product type type')
  | sum {note : Tag} {op : Operator} {left right : Expr Tag} :
      Reports (.binary note op left right) (.sum op.text)
  | comparison {note : Tag} {op : Operator} {left right : Expr Tag} :
      Reports (.binary note op left right) .comparison
  | undefinedFunction {note : Tag} {callee : String} {args : List (Expr Tag)} :
      Reports (.call note callee args) (.undefinedFunction callee)
  | notCallable {note : Tag} {callee : String} {args : List (Expr Tag)} (type : Ty) :
      Reports (.call note callee args) (.notCallable callee type)
  | argumentCount {note : Tag} {callee : String} {args : List (Expr Tag)} (expected got : Nat) :
      Reports (.call note callee args) (.argumentCount callee expected got)
  | argumentType {note : Tag} {callee : String} {args : List (Expr Tag)} (position : Nat)
      (expected : Prim) (got : Ty) :
      Reports (.call note callee args) (.argumentType position callee expected got)

/-- The violations that can be reported of a statement. -/
inductive Stmt.Reports : Stmt Tag → Violation → Prop
  | undefinedTarget {note : Tag} {target : String} {value : Expr Tag} :
      Reports (.assign note target value) (.undefinedTarget target)
  | assignedType {note : Tag} {target : String} {value : Expr Tag} (got declared : Ty) :
      Reports (.assign note target value) (.assignedType got target declared)
  | loopCondition {note : Tag} {condition : Expr Tag} {body : Block Tag} (got : Ty) :
      Reports (.loop note condition body) (.loopCondition condition.note.text got)
  | branchCondition {note : Tag} {condition : Expr Tag} {whenTrue : Block Tag}
      {whenFalse : Option (Block Tag)} (got : Ty) :
      Reports (.branch note condition whenTrue whenFalse)
        (.branchCondition condition.note.text got)
  | unprintable {note : Tag} {value : Expr Tag} : Reports (.print note value) .unprintable
  | missingValue {note : Tag} (scope : String) (expected : Ty) :
      Reports (.ret note none) (.missingValue scope expected)
  | valueFromVoid {note : Tag} {value : Expr Tag} (scope : String) :
      Reports (.ret note (some value)) (.valueFromVoid scope)
  | returnedType {note : Tag} {value : Expr Tag} (scope : String) (expected got : Ty) :
      Reports (.ret note (some value)) (.returnedType scope expected got)

namespace Rule

variable {note : Tag} {violation : Violation}

theorem reports_of_negation {op : String} {operand : Expr Tag} {type : Ty}
    (h : negation op type = .error violation) :
    (Expr.negate note op operand).Reports violation := by
  unfold negation at h
  split at h
  · cases h
  · split at h
    · cases h
    · cases h
      exact .negate type

theorem reports_of_parens {inner : Expr Tag} {type : Ty} (h : parens type = .error violation) :
    (Expr.parens note inner).Reports violation := by
  unfold parens at h
  split at h
  · cases h
    exact .parens
  · cases h

theorem reports_of_operation {op : Operator} {left right : Expr Tag} {type type' : Ty}
    (h : operation op type type' = .error violation) :
    (Expr.binary note op left right).Reports violation := by
  unfold operation at h
  split at h
  · cases h
  · split at h
    · cases h
      exact .product type type'
    · split at h
      · cases h
        exact .sum
      · cases h
        exact .comparison

theorem reports_of_application {callee : String} {args : List (Expr Tag)} {bound : Option Ty}
    {types : List Ty} (h : application callee bound types = .error violation) :
    (Expr.call note callee args).Reports violation := by
  unfold application at h
  split at h
  · cases h
    exact .undefinedFunction
  · cases h
    exact .notCallable _
  · split at h
    · cases h
      exact .argumentCount _ _
    · split at h
      · cases h
        exact .argumentType _ _ _
      · cases h

theorem reports_of_assignment {target : String} {value : Expr Tag} {bound : Option Ty} {got : Ty}
    (h : assignment target bound got = some violation) :
    (Stmt.assign note target value).Reports violation := by
  unfold assignment at h
  split at h
  · cases h
    exact .undefinedTarget
  · split at h
    · cases h
    · cases h
      exact .assignedType _ _

theorem reports_of_loopCondition {condition : Expr Tag} {body : Block Tag} {got : Ty}
    (h : loopCondition condition.note.text got = some violation) :
    (Stmt.loop note condition body).Reports violation := by
  unfold loopCondition at h
  split at h
  · cases h
  · cases h
    exact .loopCondition got

theorem reports_of_branchCondition {condition : Expr Tag} {whenTrue : Block Tag}
    {whenFalse : Option (Block Tag)} {got : Ty}
    (h : branchCondition condition.note.text got = some violation) :
    (Stmt.branch note condition whenTrue whenFalse).Reports violation := by
  unfold branchCondition at h
  split at h
  · cases h
  · cases h
    exact .branchCondition got

theorem reports_of_printing {value : Expr Tag} {got : Ty} (h : printing got = some violation) :
    (Stmt.print note value).Reports violation := by
  unfold printing at h
  split at h
  · cases h
    exact .unprintable
  · cases h

theorem reports_of_returning {scope : String} {returns : Option Ty} {value : Option (Expr Tag)}
    {got : Expr Tag → Ty} (h : returning scope returns (value.map got) = some violation) :
    (Stmt.ret note value).Reports violation := by
  unfold returning at h
  cases value with
  | none =>
    simp only [Option.map_none] at h
    split at h
    · cases h
    · cases h
      exact .missingValue _ _
  | some value =>
    simp only [Option.map_some] at h
    split at h
    · cases h
      exact .valueFromVoid _
    · split at h
      · cases h
      · cases h
        exact .returnedType _ _ _

end Rule

/-- Whether events can come from inferring the types of expressions that have some nodes. -/
inductive Infers (env : Env) : List (Node Tag) → List Event → Prop
  | nil : Infers env [] []
  | append {nodes nodes' : List (Node Tag)} {events events' : List Event}
      (h : Infers env nodes events) (h' : Infers env nodes' events') :
      Infers env (nodes ++ nodes') (events ++ events')
  | read {note : Tag} {name : String} {type : Ty} (h : env.usable? name = some type) :
      Infers env [.expr (.ident note name)] (Inference.conclude note [.read name] (.ok type)).events
  | unread {note : Tag} {name : String} (h : env.usable? name = none) :
      Infers env [.expr (.ident note name)]
        (Inference.conclude note [] (.error (.undefinedVariable name))).events
  | conclude {e : Expr Tag} {r : Except Violation Ty} {nodes : List (Node Tag)}
      {events : List Event} (hname : ∀ note name, e ≠ .ident note name)
      (hr : ∀ violation, r = .error violation → e.Reports violation)
      (h : Infers env nodes events) :
      Infers env (.expr e :: nodes) (Inference.conclude e.note events r).events

/-- Whether events can come from checking statements and blocks that have some nodes. -/
inductive Checks (setting : Setting) : List (Node Tag) → List Event → Prop
  | infer {nodes : List (Node Tag)} {events : List Event} (h : Infers setting.env nodes events) :
      Checks setting nodes events
  | append {nodes nodes' : List (Node Tag)} {events events' : List Event}
      (h : Checks setting nodes events) (h' : Checks setting nodes' events') :
      Checks setting (nodes ++ nodes') (events ++ events')
  | judge {s : Stmt Tag} {violation : Option Violation} {nodes : List (Node Tag)}
      {events : List Event} (hviolation : ∀ v, violation = some v → s.Reports v)
      (h : Checks setting nodes events) :
      Checks setting (.stmt s :: nodes) (events ++ verdict s.note violation)
  | warn (flow : Flow) (note : Tag) {nodes : List (Node Tag)} {events : List Event}
      (h : Checks setting nodes events) : Checks setting nodes (flow.warning note ++ events)
  | block (b : Block Tag) {nodes : List (Node Tag)} {events : List Event}
      (h : Checks setting nodes events) : Checks setting (.block b :: nodes) events

/-- Whether events can come from checking a declaration that has some nodes. -/
inductive Introduces (env : Env) (d : VarDecl Tag) : List (Node Tag) → List Event → Prop
  | bound {nodes : List (Node Tag)} {events : List Event} (h : Infers env nodes events) :
      Introduces env d (.decl d :: nodes) events
  | duplicate {nodes : List (Node Tag)} {events : List Event} (h : Infers env nodes events) :
      Introduces env d (.decl d :: nodes)
        (events ++ [.reported d.note (.duplicateVariable d.name)])
  | mistyped (type : Ty) {nodes : List (Node Tag)} {events : List Event}
      (h : Infers env nodes events) :
      Introduces env d (.decl d :: nodes)
        (events ++ [.typed d.note .error, .reported d.note (.initialType type d.type)])

mutual

theorem Expr.infers_infer (env : Env) (e : Expr Tag) :
    Infers env (e.walk fun _ ↦ false) (e.infer env).events := by
  match e with
  | .int note digits => exact .conclude (e := .int note digits) (by simp) (by simp) .nil
  | .string note lexeme => exact .conclude (e := .string note lexeme) (by simp) (by simp) .nil
  | .bool note value => exact .conclude (e := .bool note value) (by simp) (by simp) .nil
  | .ident note name =>
    rw [Expr.infer]
    split
    · next husable => exact .read husable
    · next husable => exact .unread husable
  | .negate note op operand =>
    exact .conclude (e := .negate note op operand) (by simp)
      (fun _ ↦ Rule.reports_of_negation) (operand.infers_infer env)
  | .parens note inner =>
    exact .conclude (e := .parens note inner) (by simp)
      (fun _ ↦ Rule.reports_of_parens) (inner.infers_infer env)
  | .binary note op left right =>
    exact .conclude (e := .binary note op left right) (by simp)
      (fun _ ↦ Rule.reports_of_operation) (.append (left.infers_infer env) (right.infers_infer env))
  | .call note callee args =>
    exact .conclude (e := .call note callee args) (by simp)
      (fun _ ↦ Rule.reports_of_application) (Expr.infers_inferAll env args)

theorem Expr.infers_inferAll (env : Env) (es : List (Expr Tag)) :
    Infers env (Expr.walkAll (fun _ ↦ false) es) (Expr.inferAll env es).2 := by
  match es with
  | [] => exact .nil
  | e :: es => exact .append (e.infers_infer env) (Expr.infers_inferAll env es)

end

section

variable (setting : Setting)

mutual

theorem Stmt.checks_check (s : Stmt Tag) :
    Checks setting (s.walk fun _ ↦ false) (s.check setting) := by
  have hexpr (e : Expr Tag) : Checks setting (e.walk fun _ ↦ false) (e.infer setting.env).events :=
    .infer (e.infers_infer setting.env)
  match s with
  | .assign note target value =>
    exact .judge (s := .assign note target value) (fun _ ↦ Rule.reports_of_assignment) (hexpr value)
  | .loop note condition body =>
    exact .judge (s := .loop note condition body) (fun _ ↦ Rule.reports_of_loopCondition)
      (.append (hexpr condition) (body.checks_check .live))
  | .branch note condition whenTrue none =>
    exact .judge (s := .branch note condition whenTrue none)
      (fun _ ↦ Rule.reports_of_branchCondition)
      (.append (hexpr condition) (whenTrue.checks_check .live))
  | .branch note condition whenTrue (some whenFalse) =>
    exact .judge (s := .branch note condition whenTrue (some whenFalse))
      (fun _ ↦ Rule.reports_of_branchCondition)
      (.append (.append (hexpr condition) (whenTrue.checks_check .live))
        (whenFalse.checks_check .live))
  | .print note value =>
    exact .judge (s := .print note value) (fun _ ↦ Rule.reports_of_printing) (hexpr value)
  | .ret note none =>
    exact .judge (s := .ret note none)
      (fun _ ↦ @Rule.reports_of_returning _ _ _ _ none fun _ ↦ .error) (.infer .nil)
  | .ret note (some value) =>
    exact .judge (s := .ret note (some value))
      (fun _ ↦ @Rule.reports_of_returning _ _ _ _ (some value) fun e ↦ (e.infer setting.env).type)
      (hexpr value)
  | .call note callNote callee args =>
    have hcall : Checks setting (.stmt (.call note callNote callee args) :: _)
        (_ ++ verdict note none) := .judge (by simp) (hexpr (.call callNote callee args))
    rw [verdict, List.append_nil] at hcall
    exact hcall

theorem Block.checks_check (flow : Flow) (b : Block Tag) :
    Checks setting (b.walk fun _ ↦ false) (b.check setting flow) := by
  match b with
  | .mk note stmts => exact .block (.mk note stmts) (Stmt.checks_checkAll flow stmts)

theorem Stmt.checks_checkAll (flow : Flow) (stmts : List (Stmt Tag)) :
    Checks setting (Stmt.walkAll (fun _ ↦ false) stmts) (Stmt.checkAll setting flow stmts) := by
  match stmts with
  | [] => exact .infer .nil
  | s :: stmts =>
    exact .append (.warn flow s.note s.checks_check)
      (Stmt.checks_checkAll (flow.after s.isReturn) stmts)

end

end

theorem VarDecl.introduces_check (t : ScopeTable) (id : ScopeId) (d : VarDecl Tag) :
    Introduces (t.env id) d (d.walk fun _ ↦ false) (d.check t id).events := by
  have hinit : Infers (t.env id) (d.init.toList.flatMap (Expr.walk fun _ ↦ false))
      (((d.init.map (Expr.infer (t.env id))).map (·.events)).getD []) := by
    cases d.init with
    | none => exact .nil
    | some e =>
      rw [Option.toList_some, List.flatMap_singleton]
      exact e.infers_infer (t.env id)
  unfold VarDecl.check
  simp only
  split
  · exact .duplicate hinit
  · split
    · exact .mistyped _ hinit
    · exact .bound hinit

end ScriptAnalysis
