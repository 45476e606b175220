import ScriptAnalysis.Analysis.Event
import ScriptAnalysis.Program.Node

/-!
# Inferring the types of expressions

An expression is typed after its operands, under what the names around it are bound to. The rules
are stated apart from the walk: each gives the type of a node or the violation it is. Where an
operand has the type `error`, that has been reported, and the node has the type `error` too.
-/

namespace ScriptAnalysis

/-- The types that names are bound to. -/
abbrev Env := String → Option Ty

namespace Env

/-- The type of a name that can be used: bound, and not to `error`. -/
def usable? (env : Env) (name : String) : Option Ty := (env name).filter (· ≠ .error)

end Env

def ScopeTable.env (t : ScopeTable) (scope : ScopeId) : Env := fun name ↦
  (t.resolve? scope name).bind (·.type)

namespace Rule

def parens (inner : Ty) : Except Violation Ty :=
  if inner = .error then .error .parenthesizedError else .ok inner

def negation (op : String) (operand : Ty) : Except Violation Ty :=
  if op = "-" ∧ operand = .int then .ok .int
  else if op = "!" ∧ operand = .bool then .ok .bool
  else .error (.negation op operand)

def operation (op : Operator) (left right : Ty) : Except Violation Ty :=
  if left = .int ∧ right = .int then .ok (if op.level = 3 then .bool else .int)
  else if op.level = 1 then .error (.product left right)
  else if op.level = 2 then .error (.sum op.text)
  else .error .comparison

/-- The first argument, counted from `position`, whose type is neither the expected one nor
`error`. -/
def firstMismatch? (position : Nat) : List Ty → List Prim → Option (Nat × Prim × Ty)
  | got :: args, expected :: params =>
    if got = .error ∨ got = .prim expected then firstMismatch? (position + 1) args params
    else some (position, expected, got)
  | _, _ => none

def application (callee : String) (bound : Option Ty) (args : List Ty) : Except Violation Ty :=
  match bound with
  | none => .error (.undefinedFunction callee)
  | some (.prim p) => .error (.notCallable callee (.prim p))
  | some (.func s) =>
    if args.length ≠ s.params.length then
      .error (.argumentCount callee s.params.length args.length)
    else match firstMismatch? 1 args s.params with
      | some (position, expected, got) => .error (.argumentType position callee expected got)
      | none => .ok (if .error ∈ args then .error else .prim s.returns)

end Rule

/-- The type of an expression and what happened while it was found. -/
structure Inference where
  type : Ty
  events : List Event

/-- Ends the inference of a node: a violation is reported and makes its type `error`. -/
def Inference.conclude (node : Tag) (events : List Event) : Except Violation Ty → Inference
  | .ok type => ⟨type, events ++ [.typed node type]⟩
  | .error violation => ⟨.error, events ++ [.reported node violation, .typed node .error]⟩

open Inference (conclude)

mutual

def Expr.infer (env : Env) : Expr Tag → Inference
  | .int note _ => conclude note [] (.ok .int)
  | .string note _ => conclude note [] (.ok .string)
  | .bool note _ => conclude note [] (.ok .bool)
  | .ident note name =>
    match env.usable? name with
    | some type => conclude note [.read name] (.ok type)
    | none => conclude note [] (.error (.undefinedVariable name))
  | .negate note op operand =>
    let inner := operand.infer env
    conclude note inner.events (Rule.negation op inner.type)
  | .parens note inner =>
    let inner := inner.infer env
    conclude note inner.events (Rule.parens inner.type)
  | .binary note op left right =>
    let left := left.infer env
    let right := right.infer env
    conclude note (left.events ++ right.events) (Rule.operation op left.type right.type)
  | .call note callee args =>
    let (types, events) := Expr.inferAll env args
    conclude note events (Rule.application callee (env.usable? callee) types)

def Expr.inferAll (env : Env) : List (Expr Tag) → List Ty × List Event
  | [] => ([], [])
  | first :: others =>
    let first := first.infer env
    let (types, events) := Expr.inferAll env others
    (first.type :: types, first.events ++ events)

end

end ScriptAnalysis
