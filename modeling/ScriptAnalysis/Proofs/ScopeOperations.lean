import ScriptAnalysis.Proofs.Scopes

/-!
# Operations on a table of scopes

A table changes by operations on its scopes: a scope is made inside another, a name is bound as a
variable, or as a parameter. An operation changes the scope it is done on and may put one more at
the end. Whatever else happens later, a scope keeps its name, its return type and the scope around
it, and the names that it binds stay bound.
-/

namespace ScriptAnalysis

open ScopeTable (globalId globalName)

inductive ScopeOp where
  | child (parent : ScopeId) (name : String) (returns : Option Ty)
  | define (id : ScopeId) (name : String) (type : Option Ty)
  | param (id : ScopeId) (name : String) (type : Option Ty)

namespace ScopeOp

/-- The scope that an operation is done on. -/
def target : ScopeOp → ScopeId
  | child id _ _ | define id _ _ | param id _ _ => id

/-- What an operation makes of the scope it is done on, where the table has room next at `next`. -/
def change (next : ScopeId) : ScopeOp → Scope → Scope
  | child _ name _, s => s.addChild name next
  | define _ name type, s => s.define name type
  | param _ name type, s => s.defineParam name type

/-- What an operation makes of the scope at a position. -/
def changeAt (next : ScopeId) (op : ScopeOp) (id : ScopeId) (s : Scope) : Scope :=
  if op.target = id then op.change next s else s

/-- The scope that an operation puts at the end of the table. -/
def made? : ScopeOp → Option Scope
  | child parent name returns => some (Scope.empty name returns (some parent))
  | define _ _ _ | param _ _ _ => none

end ScopeOp

/-- What stays the same of a scope. -/
structure Scope.Header where
  name : String
  returns : Option Ty
  parent : Option ScopeId

def Scope.header (s : Scope) : Scope.Header := ⟨s.name, s.returns, s.parent⟩

namespace ScopeOp

variable {op : ScopeOp} {next id : ScopeId} {s : Scope} {name : String}

theorem header_changeAt : (op.changeAt next id s).header = s.header := by
  unfold changeAt
  split
  · cases op <;> rfl
  · rfl

theorem isSome_get?_changeAt (h : (s.get? name).isSome = true) :
    ((op.changeAt next id s).get? name).isSome = true := by
  unfold changeAt
  split
  · cases op with
    | child => exact h
    | define id name' type =>
      rw [change, Scope.get?_define]
      split
      · rfl
      · exact h
    | param id name' type =>
      rw [change, Scope.get?_defineParam]
      split
      · rfl
      · exact h
  · exact h

/-- Only making a scope under a name changes what is registered under it. -/
theorem children_changeAt (h : ∀ returns, op ≠ .child id name returns) :
    (op.changeAt next id s).children[name]? = s.children[name]? := by
  unfold changeAt
  split
  · next htarget =>
    cases op with
    | child parent name' returns =>
      have hne : name' ≠ name := by
        rintro rfl
        exact h returns (htarget ▸ rfl)
      rw [change, Scope.children_addChild, if_neg hne]
    | define | param => rfl
  · rfl

end ScopeOp

namespace ScopeTable

variable {t u v : ScopeTable} {op : ScopeOp} {ops : List ScopeOp} {id : ScopeId} {s : Scope}

def apply (t : ScopeTable) : ScopeOp → ScopeTable
  | .child parent name returns => t.addChild parent name returns
  | .define id name type => t.define id name type
  | .param id name type => t.defineParam id name type

/-- Whether operations on scopes that are there lead from a table to another. -/
inductive Reaches : ScopeTable → List ScopeOp → ScopeTable → Prop
  | nil {t : ScopeTable} : Reaches t [] t
  | cons {t u : ScopeTable} {op : ScopeOp} {ops : List ScopeOp} (hop : op.target < t.size)
      (h : Reaches (t.apply op) ops u) : Reaches t (op :: ops) u

theorem scopes_apply (t : ScopeTable) (op : ScopeOp) :
    (t.apply op).scopes = t.scopes.modify op.target (op.change t.size) ++ op.made?.toList := by
  cases op with
  | child => rfl
  | define | param => exact (List.append_nil _).symm

theorem size_le_apply (t : ScopeTable) (op : ScopeOp) : t.size ≤ (t.apply op).size := by
  rw [size, size, scopes_apply, List.length_append, List.length_modify]
  exact Nat.le_add_right _ _

/-- An operation leaves behind the scopes there were, with one of them changed, and perhaps a scope
it made. -/
theorem scope?_apply_eq_some_iff :
    (t.apply op).scope? id = some s ↔
      (∃ old, t.scope? id = some old ∧ s = op.changeAt t.size id old) ∨
        id = t.size ∧ op.made? = some s := by
  rcases Nat.lt_or_ge id t.size with hlt | hge
  · have hne : id ≠ t.size := Nat.ne_of_lt hlt
    have happly : (t.apply op).scope? id = (t.scope? id).map (op.changeAt t.size id) := by
      rw [scope?, scopes_apply, List.getElem?_append_left (by rwa [List.length_modify]),
        List.getElem?_modify]
      unfold ScopeOp.changeAt scope?
      split <;> rfl
    rw [happly, Option.map_eq_some_iff]
    simp [hne, eq_comm]
  · have hnone : t.scope? id = none := List.getElem?_eq_none hge
    rw [hnone, scope?, scopes_apply, List.getElem?_append_right (by rwa [List.length_modify]),
      List.length_modify]
    have hsize : t.scopes.length = t.size := rfl
    cases hmade : op.made? with
    | none => simp
    | some made =>
      have hzero : id - t.size = 0 ↔ id = t.size :=
        Nat.sub_eq_zero_iff_le.trans ⟨fun hle ↦ Nat.le_antisymm hle hge, Nat.le_of_eq⟩
      rw [hsize, Option.toList_some, List.getElem?_singleton]
      simp [hzero]

/-- Whether a table has the scopes of another, which may have come to bind more names. -/
def Grows (t u : ScopeTable) : Prop :=
  ∀ id s, t.scope? id = some s → ∃ s', u.scope? id = some s' ∧ s'.header = s.header ∧
    ∀ name, (s.get? name).isSome = true → (s'.get? name).isSome = true

theorem Grows.refl (t : ScopeTable) : t.Grows t :=
  fun _ s hs ↦ ⟨s, hs, rfl, fun _ hname ↦ hname⟩

theorem Grows.trans (h : t.Grows u) (h' : u.Grows v) : t.Grows v := by
  intro id s hs
  obtain ⟨s', hs', hheader, hnames⟩ := h id s hs
  obtain ⟨s'', hs'', hheader', hnames'⟩ := h' id s' hs'
  exact ⟨s'', hs'', hheader'.trans hheader, fun name hname ↦ hnames' name (hnames name hname)⟩

theorem grows_apply (t : ScopeTable) (op : ScopeOp) : t.Grows (t.apply op) := by
  intro id s hs
  exact ⟨op.changeAt t.size id s, scope?_apply_eq_some_iff.2 (.inl ⟨s, hs, rfl⟩),
    ScopeOp.header_changeAt, fun _ ↦ ScopeOp.isSome_get?_changeAt⟩

theorem Reaches.trans {more : List ScopeOp} (h : t.Reaches ops u) (h' : u.Reaches more v) :
    t.Reaches (ops ++ more) v := by
  induction h with
  | nil => exact h'
  | cons hop _ ih => exact .cons hop (ih h')

/-- What every operation on a scope that is there keeps holds after any operations. -/
theorem Reaches.induction {P : ScopeTable → Prop} (h : t.Reaches ops u) (ht : P t)
    (hstep : ∀ t op, P t → op.target < t.size → P (t.apply op)) : P u := by
  induction h with
  | nil => exact ht
  | cons hop _ ih => exact ih (hstep _ _ ht hop)

end ScopeTable

end ScriptAnalysis
