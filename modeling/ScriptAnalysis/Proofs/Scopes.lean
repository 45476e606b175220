import ScriptAnalysis.Proofs.Typing

/-!
# Scopes hold the contexts of bodies

A body is checked in a scope right inside the global one. What a name is resolved to there is what
the context of the body gives it, and defining a variable in the scope extends the context.
-/

namespace ScriptAnalysis

namespace Scope

variable (s : Scope)

theorem get?_define (name name' : String) (type : Option Ty) :
    (s.define name type).get? name' =
      if name = name' then some (s.variableSymbol name type) else s.get? name' := by
  simp only [define, get?, Std.ExtTreeMap.getElem?_insert, Std.LawfulEqCmp.compare_eq_iff_eq]

theorem get?_defineParam (name name' : String) (type : Option Ty) :
    (s.defineParam name type).get? name' =
      if name = name' then some (s.parameterSymbol name type) else s.get? name' := by
  simp only [defineParam, get?, Std.ExtTreeMap.getElem?_insert, Std.LawfulEqCmp.compare_eq_iff_eq]

@[simp] theorem get?_addChild (name name' : String) (child : ScopeId) :
    (s.addChild name child).get? name' = s.get? name' := rfl

@[simp] theorem get?_empty (name name' : String) (returns : Option Ty) (parent : Option ScopeId) :
    (empty name returns parent).get? name' = none := by
  simp [empty, get?]

theorem children_addChild (name name' : String) (child : ScopeId) :
    (s.addChild name child).children[name']? =
      if name = name' then some child else s.children[name']? := by
  simp only [addChild, Std.ExtTreeMap.getElem?_insert, Std.LawfulEqCmp.compare_eq_iff_eq]

@[simp] theorem type_variableSymbol (name : String) (type : Option Ty) :
    (s.variableSymbol name type).type = type := by
  unfold variableSymbol
  split <;> rfl

end Scope

namespace ScopeTable

variable {t : ScopeTable} {id id' : ScopeId} {name : String} {g s : Scope}

theorem scope?_modify (f : Scope → Scope) :
    (t.modify id f).scope? id' = if id = id' then (t.scope? id').map f else t.scope? id' := by
  simp only [scope?, modify, List.getElem?_modify]
  split <;> simp

@[simp] theorem size_modify (f : Scope → Scope) : (t.modify id f).size = t.size := by
  simp [size, modify]

theorem scope?_define_self (h : t.scope? id = some s) (type : Option Ty) :
    (t.define id name type).scope? id = some (s.define name type) := by
  rw [define, scope?_modify, if_pos rfl, h]
  rfl

theorem scope?_define_ne (h : id' ≠ id) (type : Option Ty) :
    (t.define id name type).scope? id' = t.scope? id' := by
  rw [define, scope?_modify, if_neg h.symm]

theorem childNamed?_of_scope? (h : t.scope? id = some s) :
    t.childNamed? id name = s.children[name]? := by
  rw [childNamed?, h]
  rfl

/-- A name is looked for in a scope right inside the global one and then in the global one. -/
theorem resolve?_of_child (hs : t.scope? id = some s) (hparent : s.parent = some globalId)
    (hg : t.scope? globalId = some g) (hglobal : g.parent = none) (hne : id ≠ globalId) :
    t.resolve? id name = (s.get? name).or (g.get? name) := by
  have hlt : id < t.size := (List.getElem?_eq_some_iff.1 hs).1
  obtain ⟨count, hsize⟩ : ∃ count, t.size = count + 2 :=
    Nat.exists_eq_add_of_le' (Nat.lt_of_le_of_lt (Nat.pos_of_ne_zero hne) hlt)
  have houtward : t.outward id = [id, globalId] := by
    rw [outward, hsize, outwardUpTo, hs]
    simp only [hparent]
    rw [outwardUpTo, hg]
    simp only [hglobal]
  rw [resolve?, houtward]
  simp only [List.findSome?_cons, List.findSome?_nil, local?, hs, hg, Option.bind_some]
  cases s.get? name <;> cases g.get? name <;> rfl

end ScopeTable

/-- Whether a scope binds just these variables and parameters. -/
def Scope.BindsLocals (s : Scope) (locals : List (String × Prim)) : Prop :=
  ∀ name, (s.get? name).map Symbol.type = (locals.lookup name).map fun p ↦ some (.prim p)

/-- Whether a scope binds just these functions. -/
def Scope.BindsFunctions (s : Scope) (functions : List (String × Signature)) : Prop :=
  ∀ name, (s.get? name).map Symbol.type = (functions.lookup name).map fun f ↦ some (.func f)

theorem Scope.BindsLocals.define {s : Scope} {locals : List (String × Prim)}
    (h : s.BindsLocals locals) (name : String) (type : Prim) :
    (s.define name (some (.prim type))).BindsLocals ((name, type) :: locals) := by
  intro name'
  rw [Scope.get?_define, List.lookup_cons]
  by_cases hname : name = name'
  · simp [hname]
  · have hbeq : (name' == name) = false := by simpa using Ne.symm hname
    rw [if_neg hname, hbeq]
    exact h name'

/-- Whether no variable of a context has the type `error` and no function returns it. -/
def Context.Proper (Γ : Context) : Prop :=
  (∀ p ∈ Γ.locals, p.2 ≠ .error) ∧ ∀ f ∈ Γ.functions, f.2.returns ≠ .error

theorem mem_of_lookup_eq_some {β : Type} {name : String} {b : β} {l : List (String × β)}
    (h : l.lookup name = some b) : (name, b) ∈ l := by
  obtain ⟨before, after, rfl, -⟩ := List.lookup_eq_some_iff.1 h
  simp

theorem Context.Proper.env {Γ : Context} (h : Γ.Proper) : Γ.env.Proper := by
  intro name type htype
  rw [Context.env] at htype
  split at htype
  · next p hp =>
    cases htype
    exact ⟨by simpa using h.1 _ (mem_of_lookup_eq_some hp), by simp⟩
  · obtain ⟨signature, hsignature, rfl⟩ := Option.map_eq_some_iff.1 htype
    refine ⟨by simp, ?_⟩
    rintro _ ⟨⟩
    exact h.2 _ (mem_of_lookup_eq_some hsignature)

theorem Context.Proper.bind {Γ : Context} (h : Γ.Proper) (name : String) {type : Prim}
    (htype : type ≠ .error) : (Γ.bind name type).Proper := by
  refine ⟨?_, h.2⟩
  intro p hp
  rcases List.mem_cons.1 hp with rfl | hp
  · exact htype
  · exact h.1 p hp

/-- Whether the scope `id` of a table is that of a body that returns `returns`, with `Γ` for what is
visible there. -/
structure ScopeTable.Holds (t : ScopeTable) (id : ScopeId) (returns : Prim) (Γ : Context) :
    Prop where
  ne : id ≠ globalId
  inner : ∃ s, t.scope? id = some s ∧ s.parent = some globalId ∧ s.returns = some (.prim returns) ∧
    s.BindsLocals Γ.locals
  outer : ∃ g, t.scope? globalId = some g ∧ g.parent = none ∧ g.BindsFunctions Γ.functions
  proper : Γ.Proper

namespace ScopeTable.Holds

variable {t : ScopeTable} {id : ScopeId} {returns : Prim} {Γ : Context}

theorem map_resolve? (h : t.Holds id returns Γ) (name : String) :
    (t.resolve? id name).map Symbol.type = (Γ.env name).map some := by
  obtain ⟨s, hs, hparent, -, hlocals⟩ := h.inner
  obtain ⟨g, hg, hglobal, hfunctions⟩ := h.outer
  have hlocal := hlocals name
  have hfunction := hfunctions name
  rw [ScopeTable.resolve?_of_child hs hparent hg hglobal h.ne, Context.env]
  cases hlookup : Γ.locals.lookup name with
  | some p =>
    rw [hlookup] at hlocal
    cases hget : s.get? name with
    | none => simp [hget] at hlocal
    | some symbol => simpa [hget] using hlocal
  | none =>
    rw [hlookup] at hlocal
    have hget : s.get? name = none := by simpa using hlocal
    rw [hget, Option.none_or, hfunction, Option.map_map]
    rfl

theorem env_eq (h : t.Holds id returns Γ) : t.env id = Γ.env := by
  funext name
  have hname := h.map_resolve? name
  rw [ScopeTable.env]
  cases hresolve : t.resolve? id name with
  | none => cases henv : Γ.env name <;> simp_all
  | some symbol => cases henv : Γ.env name <;> simp_all

theorem isSome_resolve? (h : t.Holds id returns Γ) (name : String) :
    (t.resolve? id name).isSome = (Γ.env name).isSome := by
  have hname := congrArg Option.isSome (h.map_resolve? name)
  simpa using hname

theorem setting (h : t.Holds id returns Γ) :
    (t.setting id).env = Γ.env ∧ (t.setting id).returns = some (.prim returns) := by
  obtain ⟨s, hs, -, hreturns, -⟩ := h.inner
  rw [ScopeTable.setting, hs]
  exact ⟨h.env_eq, hreturns⟩

theorem define (h : t.Holds id returns Γ) (name : String) {type : Prim} (htype : type ≠ .error) :
    (t.define id name (some (.prim type))).Holds id returns (Γ.bind name type) := by
  obtain ⟨s, hs, hparent, hreturns, hlocals⟩ := h.inner
  obtain ⟨g, hg, hglobal, hfunctions⟩ := h.outer
  have hs' := @ScopeTable.scope?_define_self t id name s hs (some (.prim type))
  have hg' : (t.define id name (some (.prim type))).scope? globalId = some g := by
    rw [ScopeTable.scope?_define_ne h.ne.symm, hg]
  exact ⟨h.ne, ⟨_, hs', hparent, hreturns, hlocals.define name type⟩, ⟨g, hg', hglobal, hfunctions⟩,
    h.proper.bind name htype⟩

end ScopeTable.Holds

end ScriptAnalysis
