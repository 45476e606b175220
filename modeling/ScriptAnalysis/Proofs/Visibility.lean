import ScriptAnalysis.Proofs.ScopeTrees

/-!
# Who sees a binding

Binding a name in a scope is seen from that scope, and from a scope inside it if no scope on the way
out binds the name itself. From anywhere else every name is found as before. Nothing else changes in
the table: the scope itself gets the binding and counts it, and every other scope stays as it is.
-/

namespace ScriptAnalysis

/-- The two kinds of symbols that a scope numbers, each on its own. -/
inductive Slot where
  | param
  | var
  deriving DecidableEq

/-- The kind of a symbol, if it is numbered. -/
def Slot.of? (isParam : Bool) (type : Option Ty) : Option Slot :=
  match isParam, type with
  | true, _ => some param
  | false, some (.prim _) => some var
  | false, _ => none

/-- What a definition is asked to bind. -/
structure Binding where
  isParam : Bool
  name : String
  type : Option Ty

namespace Binding

def slot? (b : Binding) : Option Slot := Slot.of? b.isParam b.type

/-- The symbol of a binding where the numbers to be given next are known. -/
def symbol (next : Slot → Nat) (b : Binding) : Symbol :=
  ⟨b.name, b.type, b.isParam, (b.slot?.map next).getD 0⟩

end Binding

/-- What an operation binds in the scope it is done on. -/
def ScopeOp.binding? : ScopeOp → Option Binding
  | child _ _ _ => none
  | define _ name type => some ⟨false, name, type⟩
  | param _ name type => some ⟨true, name, type⟩

namespace Scope

variable (s : Scope) (b : Binding)

/-- The number that a scope gives to the next symbol of a kind. -/
def next : Slot → Nat
  | .param => s.nextParameter
  | .var => s.nextVariable

def bind : Scope := if b.isParam then s.defineParam b.name b.type else s.define b.name b.type

theorem get?_bind (name : String) :
    (s.bind b).get? name = if b.name = name then some (b.symbol s.next) else s.get? name := by
  obtain ⟨isParam, own, type⟩ := b
  cases isParam with
  | true => exact s.get?_defineParam own name type
  | false =>
    have hsymbol : s.variableSymbol own type = Binding.symbol s.next ⟨false, own, type⟩ := by
      match type with
      | none | some (.func _) | some (.prim _) => rfl
    rw [← hsymbol]
    exact s.get?_define own name type

theorem next_bind (slot : Slot) :
    (s.bind b).next slot = s.next slot + if b.slot? = some slot then 1 else 0 := by
  obtain ⟨isParam, own, type⟩ := b
  match isParam, type, slot with
  | true, _, .param | true, _, .var => rfl
  | false, some (.prim _), .param | false, some (.prim _), .var => rfl
  | false, some (.func _), .param | false, some (.func _), .var => rfl
  | false, none, .param | false, none, .var => rfl

theorem header_bind : (s.bind b).header = s.header ∧ (s.bind b).children = s.children := by
  unfold bind
  split <;> exact ⟨rfl, rfl⟩

end Scope

namespace ScopeTable

variable {t : ScopeTable} {op : ScopeOp} {b : Binding} {id : ScopeId} {s : Scope} {name : String}

theorem scopes_apply_of_binding (h : op.binding? = some b) :
    (t.apply op).scopes = t.scopes.modify op.target (·.bind b) := by
  cases op with
  | child => cases h
  | define | param =>
    cases h
    rfl

theorem scope?_apply_of_binding (h : op.binding? = some b) (id : ScopeId) :
    (t.apply op).scope? id =
      if op.target = id then (t.scope? id).map (·.bind b) else t.scope? id := by
  rw [scope?, scopes_apply_of_binding h]
  exact scope?_modify _

theorem resolve?_of_scope?_eq_none (h : t.scope? id = none) : t.resolve? id name = none := by
  unfold resolve? outward
  cases t.size with
  | zero => rfl
  | succ count => rw [outwardUpTo, h, List.findSome?_nil]

/-- A name is looked for in a scope and then in the scope around it. -/
theorem TreeShaped.resolve?_eq (ht : t.TreeShaped) (hs : t.scope? id = some s) (name : String) :
    t.resolve? id name = (s.get? name).or (s.parent.bind (t.resolve? · name)) := by
  have hlocal : t.local? id name = s.get? name := by rw [local?, hs, Option.bind_some]
  cases hparent : s.parent with
  | none =>
    rw [(Chain.last hs hparent).resolve?_eq ht, List.findSome?_singleton, hlocal]
    exact (Option.or_none).symm
  | some parent =>
    have hlt : parent < t.size := Nat.lt_trans (ht.parent_lt hs hparent) (lt_size_of_scope? hs)
    have houtward := ht.chain_outward hlt
    rw [(Chain.inner hs hparent houtward).resolve?_eq ht, List.findSome?_cons, hlocal,
      Option.bind_some, houtward.resolve?_eq ht]
    cases s.get? name <;> rfl

/-- Whether a name is looked for in the scope `id` when it is looked for from another: that scope is
`id`, or it does not bind the name and the name is looked for in `id` from the scope around it. -/
inductive Sees (t : ScopeTable) (id : ScopeId) (name : String) : ScopeId → Prop
  | self : Sees t id name id
  | outward {start outer : ScopeId} {s : Scope} (hs : t.scope? start = some s)
      (hname : s.get? name = none) (hparent : s.parent = some outer)
      (h : Sees t id name outer) : Sees t id name start

variable {start : ScopeId}

/-- A new binding is found from everywhere that its scope is looked in for the name. -/
theorem Sees.resolve?_apply (h : t.Sees op.target b.name start) (ht : t.TreeShaped)
    (hop : op.binding? = some b) (hs : t.scope? op.target = some s) :
    (t.apply op).resolve? start b.name = some (b.symbol s.next) := by
  have hu : (t.apply op).TreeShaped := ht.apply (lt_size_of_scope? hs)
  have hself : (t.apply op).resolve? op.target b.name = some (b.symbol s.next) := by
    have hbound : (t.apply op).scope? op.target = some (s.bind b) := by
      rw [scope?_apply_of_binding hop, if_pos rfl, hs]
      rfl
    rw [hu.resolve?_eq hbound, s.get?_bind, if_pos rfl]
    rfl
  induction h with
  | self => exact hself
  | @outward start outer s' hs' hname hparent _ ih =>
    by_cases hstart : op.target = start
    · rw [← hstart, hself]
    · have hsame : (t.apply op).scope? start = some s' := by
        rw [scope?_apply_of_binding hop, if_neg hstart, hs']
      rw [hu.resolve?_eq hsame, hname, hparent]
      exact ih

/-- From everywhere else, and for other names, what is found stays the same. -/
theorem TreeShaped.resolve?_apply_eq (ht : t.TreeShaped) (hop : op.binding? = some b)
    (htarget : op.target < t.size) (h : ¬(name = b.name ∧ t.Sees op.target name start)) :
    (t.apply op).resolve? start name = t.resolve? start name := by
  have hu : (t.apply op).TreeShaped := ht.apply htarget
  -- The scopes around a scope come before it.
  induction start using Nat.strongRecOn with
  | ind start ih =>
    cases hs : t.scope? start with
    | none =>
      have hs' : (t.apply op).scope? start = none := by
        rw [scope?_apply_of_binding hop, hs]
        exact ite_self none
      rw [resolve?_of_scope?_eq_none hs, resolve?_of_scope?_eq_none hs']
    | some s =>
      obtain ⟨s', hs', hparent, hget⟩ : ∃ s', (t.apply op).scope? start = some s' ∧
          s'.parent = s.parent ∧ s'.get? name = s.get? name := by
        rw [scope?_apply_of_binding hop, hs]
        by_cases hstart : op.target = start
        · have hne : b.name ≠ name := fun hname ↦ h ⟨hname.symm, hstart ▸ .self⟩
          exact ⟨s.bind b, if_pos hstart, congrArg Scope.Header.parent (s.header_bind b).1,
            (s.get?_bind b name).trans (if_neg hne)⟩
        · exact ⟨s, if_neg hstart, rfl, rfl⟩
      rw [hu.resolve?_eq hs', ht.resolve?_eq hs, hget, hparent]
      cases hlocal : s.get? name with
      | some symbol => rfl
      | none =>
        cases houter : s.parent with
        | none => rfl
        | some outer =>
          exact ih outer (ht.parent_lt hs houter)
            fun hsees ↦ h ⟨hsees.1, .outward hs hlocal houter hsees.2⟩

end ScopeTable

/-- In a table that came about by operations, a name is bound in a scope. The new symbol is found
under the name from the scope itself and from every scope inside it that has no other binding of the
name on the way. From other scopes, and under other names, everything is found as before. Of the
scope only the binding of the name and the number to be given next to a symbol of its kind change,
and the other scopes stay as they are. -/
theorem binding_seen_from {ops : List ScopeOp} {t : ScopeTable}
    (h : ScopeTable.initial.Reaches ops t) {op : ScopeOp} {b : Binding}
    (hop : op.binding? = some b) {s : Scope} (hs : t.scope? op.target = some s) :
    (∀ start name,
      (name = b.name ∧ t.Sees op.target name start →
        (t.apply op).resolve? start name = some (b.symbol s.next)) ∧
      (¬(name = b.name ∧ t.Sees op.target name start) →
        (t.apply op).resolve? start name = t.resolve? start name)) ∧
    (t.apply op).size = t.size ∧
    (∀ id ≠ op.target, (t.apply op).scope? id = t.scope? id) ∧
    ∃ s', (t.apply op).scope? op.target = some s' ∧ s'.header = s.header ∧
      s'.children = s.children ∧
      (∀ name, s'.get? name = if b.name = name then some (b.symbol s.next) else s.get? name) ∧
      ∀ slot, s'.next slot = s.next slot + if b.slot? = some slot then 1 else 0 := by
  have ht : t.TreeShaped := .of_reaches h
  refine ⟨fun start name ↦ ⟨?_, ?_⟩, ?_, fun id hid ↦ ?_, s.bind b, ?_, ?_⟩
  · rintro ⟨rfl, hsees⟩
    exact hsees.resolve?_apply ht hop hs
  · exact ht.resolve?_apply_eq hop (ScopeTable.lt_size_of_scope? hs)
  · rw [ScopeTable.size, ScopeTable.scopes_apply_of_binding hop, List.length_modify]
    rfl
  · rw [ScopeTable.scope?_apply_of_binding hop, if_neg hid.symm]
  · rw [ScopeTable.scope?_apply_of_binding hop, if_pos rfl, hs]
    rfl
  · exact ⟨(s.header_bind b).1, (s.header_bind b).2, s.get?_bind b, s.next_bind b⟩

/-- A parameter of a function is seen from a scope inside the function, but not from one that has a
variable of that name, nor from outside. -/
theorem binding_seen_from_inside :
    ∃ t, ScopeTable.initial.Reaches [.define 0 "x" none, .child 0 "f" none, .child 1 "a" none,
        .child 1 "b" none, .define 3 "x" (some .bool)] t ∧
      (t.apply (.param 1 "x" (some .int))).resolve? 2 "x" = some ⟨"x", some .int, true, 0⟩ ∧
      (t.apply (.param 1 "x" (some .int))).resolve? 3 "x" = some ⟨"x", some .bool, false, 0⟩ ∧
      (t.apply (.param 1 "x" (some .int))).resolve? 0 "x" = some ⟨"x", none, false, 0⟩ := by
  obtain ⟨t, hreaches, s, hs, hfirst, hinner, hlocal, hbeside, hglobal, houtside⟩ : ∃ t,
      ScopeTable.initial.Reaches [.define 0 "x" none, .child 0 "f" none, .child 1 "a" none,
        .child 1 "b" none, .define 3 "x" (some .bool)] t ∧
      ∃ s, t.scope? 1 = some s ∧ s.nextParameter = 0 ∧ t.Sees 1 "x" 2 ∧
        t.resolve? 3 "x" = some ⟨"x", some .bool, false, 0⟩ ∧ ¬t.Sees 1 "x" 3 ∧
        t.resolve? 0 "x" = some ⟨"x", none, false, 0⟩ ∧ ¬t.Sees 1 "x" 0 := by
    refine ⟨_, .cons (by decide) (.cons (by decide) (.cons (by decide) (.cons (by decide)
      (.cons (by decide) .nil)))), _, rfl, rfl, .outward rfl (by cbv) rfl .self,
      by cbv, ?_, by cbv, ?_⟩
    · rintro (_ | ⟨⟨⟩, hname, -, -⟩)
      rw [Scope.get?_define, if_pos rfl] at hname
      cases hname
    · rintro (_ | ⟨⟨⟩, -, ⟨⟩, -⟩)
  have hseen := (@binding_seen_from _ _ hreaches (.param 1 "x" (some .int)) _ rfl s hs).1
  refine ⟨t, hreaches, ((hseen 2 "x").1 ⟨rfl, hinner⟩).trans ?_,
    ((hseen 3 "x").2 fun h ↦ hbeside h.2).trans hlocal,
    ((hseen 0 "x").2 fun h ↦ houtside h.2).trans hglobal⟩
  rw [Binding.symbol, ← hfirst]
  rfl

end ScriptAnalysis
