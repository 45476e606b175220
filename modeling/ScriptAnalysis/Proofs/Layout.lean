import ScriptAnalysis.Proofs.Bodies

/-!
# The scopes after the first walk

The first walk leaves the global scope, one scope for each definition in their order, and the scope
of the main part. The global scope binds every function to its signature and has the other scopes
for its children.
-/

namespace ScriptAnalysis

open ScopeTable (globalId mainName)

/-- A scope after one more parameter. -/
def Param.declareIn {α : Type} (s : Scope) (p : Param α) : Scope :=
  s.defineParam p.name
    (some (.prim (if (s.get? p.name).isSome then .error else Prim.declared p.type)))

/-- The scope of a definition after the first walk. -/
def FuncDef.ownScope {α : Type} (f : FuncDef α) : Scope :=
  f.params.foldl Param.declareIn
    (Scope.empty f.name (some (.prim f.signature.returns)) (some globalId))

section

variable {α : Type} {t : ScopeTable} {id id' : ScopeId} {s : Scope}

theorem Param.declare_eq_modify (h : t.scope? id = some s) (p : Param α) :
    p.declare id t = t.modify id (Param.declareIn · p) := by
  have hmodify : ∀ f g : Scope → Scope, f s = g s → t.modify id f = t.modify id g := by
    intro f g hfg
    rw [ScopeTable.modify, ScopeTable.modify, ScopeTable.mk.injEq]
    apply List.ext_getElem?
    intro i
    rw [List.getElem?_modify, List.getElem?_modify]
    by_cases hi : id = i
    · subst hi
      rw [ScopeTable.scope?] at h
      simp [h, hfg]
    · simp [hi]
  apply hmodify
  rw [Param.declareIn, ScopeTable.local?, h]
  rfl

theorem Param.scope?_foldl_declare (h : t.scope? id = some s) (ps : List (Param α)) :
    (ps.foldl (Param.declare id) t).scope? id' =
      if id = id' then some (ps.foldl Param.declareIn s) else t.scope? id' := by
  induction ps generalizing t s with
  | nil =>
    by_cases hid : id = id'
    · subst hid
      simp [h]
    · simp [hid]
  | cons p ps ih =>
    have hfirst : (p.declare id t).scope? id = some (p.declareIn s) := by
      rw [Param.declare_eq_modify h, ScopeTable.scope?_modify, if_pos rfl, h]
      rfl
    rw [List.foldl_cons, List.foldl_cons, ih hfirst]
    by_cases hid : id = id'
    · simp [hid]
    · rw [if_neg hid, if_neg hid, Param.declare_eq_modify h, ScopeTable.scope?_modify, if_neg hid]

@[simp] theorem Param.size_foldl_declare (ps : List (Param α)) :
    (ps.foldl (Param.declare id) t).size = t.size := by
  induction ps generalizing t with
  | nil => rfl
  | cons p ps ih =>
    rw [List.foldl_cons, ih, Param.declare, ScopeTable.defineParam, ScopeTable.size_modify]

end

theorem Param.parent_foldl_declareIn {α : Type} (s : Scope) (ps : List (Param α)) :
    (ps.foldl Param.declareIn s).parent = s.parent ∧
      (ps.foldl Param.declareIn s).returns = s.returns := by
  induction ps generalizing s with
  | nil => exact ⟨rfl, rfl⟩
  | cons p ps ih => exact ih (p.declareIn s)

theorem lookup_zip_eq_none {β : Type} {names : List String} {bs : List β} {name : String}
    (h : name ∉ names) : (names.zip bs).lookup name = none := by
  rw [List.lookup_eq_none_iff]
  rintro ⟨name', b⟩ hmem
  have hname' : name' ∈ names := (List.of_mem_zip hmem).1
  simpa using fun heq : name = name' ↦ h (heq ▸ hname')

/-- Parameters with names of their own are bound to their types. -/
theorem Param.map_get?_foldl_declareIn {α : Type} {s : Scope} {ps : List (Param α)}
    (hnodup : (ps.map Param.name).Nodup) (hnew : ∀ p ∈ ps, s.get? p.name = none) (name : String) :
    ((ps.foldl Param.declareIn s).get? name).map Symbol.type =
      match ((ps.map Param.name).zip (ps.map fun p ↦ Prim.declared p.type)).lookup name with
      | some type => some (some (.prim type))
      | none => (s.get? name).map Symbol.type := by
  induction ps generalizing s with
  | nil => rfl
  | cons p ps ih =>
    rw [List.map_cons, List.nodup_cons] at hnodup
    have hfirst : s.get? p.name = none := hnew p (by simp)
    have hget : ∀ name', (p.declareIn s).get? name' =
        if p.name = name' then some (s.parameterSymbol p.name (some (.prim (Prim.declared p.type))))
        else s.get? name' := by
      intro name'
      rw [Param.declareIn, Scope.get?_defineParam, hfirst]
      rfl
    have hlater : ∀ p' ∈ ps, (p.declareIn s).get? p'.name = none := by
      intro p' hp'
      rw [hget, if_neg]
      · exact hnew p' (by simp [hp'])
      · intro hname
        exact hnodup.1 (hname ▸ List.mem_map_of_mem hp')
    rw [List.foldl_cons, ih hnodup.2 hlater, List.map_cons, List.map_cons, List.zip_cons_cons,
      List.lookup_cons, hget]
    by_cases hname : p.name = name
    · subst hname
      rw [lookup_zip_eq_none hnodup.1, beq_self_eq_true, if_pos rfl]
      rfl
    · have hbeq : (name == p.name) = false := by simpa using Ne.symm hname
      rw [hbeq, if_neg hname]

section

variable {α : Type}

/-- The global scope after some definitions whose scopes begin at `next`. -/
def Scope.bindFunctions (g : Scope) (next : ScopeId) : List (FuncDef α) → Scope
  | [] => g
  | f :: fs =>
    ((g.define f.name (some (.func f.signature))).addChild f.name next).bindFunctions (next + 1) fs

variable (g : Scope) (next : ScopeId) {fs : List (FuncDef α)} {name : String}

theorem Scope.parent_bindFunctions (fs : List (FuncDef α)) :
    (g.bindFunctions next fs).parent = g.parent := by
  induction fs generalizing g next with
  | nil => rfl
  | cons f fs ih => exact ih _ _

theorem Scope.bindFunctions_of_notMem (h : name ∉ fs.map FuncDef.name) :
    (g.bindFunctions next fs).children[name]? = g.children[name]? ∧
      (g.bindFunctions next fs).get? name = g.get? name := by
  induction fs generalizing g next with
  | nil => exact ⟨rfl, rfl⟩
  | cons f fs ih =>
    rw [List.map_cons, List.mem_cons, not_or] at h
    obtain ⟨hchild, hget⟩ := ih
      ((g.define f.name (some (.func f.signature))).addChild f.name next) (next + 1) h.2
    refine ⟨hchild.trans ?_, hget.trans ?_⟩
    · rw [Scope.children_addChild, if_neg (Ne.symm h.1)]
      rfl
    · rw [Scope.get?_addChild, Scope.get?_define, if_neg (Ne.symm h.1)]

/-- Each function has a child of the global scope, behind those there were before. -/
theorem Scope.exists_child_bindFunctions (h : name ∈ fs.map FuncDef.name) :
    ∃ id, next ≤ id ∧ (g.bindFunctions next fs).children[name]? = some id := by
  induction fs generalizing g next with
  | nil => simp at h
  | cons f fs ih =>
    by_cases hlater : name ∈ fs.map FuncDef.name
    · obtain ⟨id, hle, hchild⟩ := ih _ (next + 1) hlater
      exact ⟨id, Nat.le_of_succ_le hle, hchild⟩
    · obtain rfl : name = f.name := by
        rw [List.map_cons, List.mem_cons] at h
        exact h.resolve_right hlater
      refine ⟨next, Nat.le_refl _, (Scope.bindFunctions_of_notMem _ _ hlater).1.trans ?_⟩
      rw [Scope.children_addChild, if_pos rfl]

/-- Functions with names of their own have their scopes in order. -/
theorem Scope.children_bindFunctions (hnodup : (fs.map FuncDef.name).Nodup) {i : Nat}
    {f : FuncDef α} (hf : fs[i]? = some f) :
    (g.bindFunctions next fs).children[f.name]? = some (next + i) := by
  induction fs generalizing g next i with
  | nil => simp at hf
  | cons first fs ih =>
    rw [List.map_cons, List.nodup_cons] at hnodup
    cases i with
    | zero =>
      obtain rfl : first = f := by simpa using hf
      refine (Scope.bindFunctions_of_notMem _ _ hnodup.1).1.trans ?_
      rw [Scope.children_addChild, if_pos rfl]
      rfl
    | succ i =>
      rw [List.getElem?_cons_succ] at hf
      rw [Scope.bindFunctions, ih _ (next + 1) hnodup.2 hf, Nat.add_right_comm]
      rfl

/-- Functions with names of their own are bound to their signatures. -/
theorem Scope.map_get?_bindFunctions (hnodup : (fs.map FuncDef.name).Nodup) (name : String) :
    ((g.bindFunctions next fs).get? name).map Symbol.type =
      match ((fs.map FuncDef.name).zip (fs.map FuncDef.signature)).lookup name with
      | some signature => some (some (.func signature))
      | none => (g.get? name).map Symbol.type := by
  induction fs generalizing g next with
  | nil => rfl
  | cons f fs ih =>
    rw [List.map_cons, List.nodup_cons] at hnodup
    rw [Scope.bindFunctions, ih _ _ hnodup.2, List.map_cons, List.map_cons, List.zip_cons_cons,
      List.lookup_cons, Scope.get?_addChild, Scope.get?_define]
    by_cases hname : f.name = name
    · subst hname
      rw [lookup_zip_eq_none hnodup.1, beq_self_eq_true, if_pos rfl]
      simp
    · have hbeq : (name == f.name) = false := by simpa using Ne.symm hname
      rw [hbeq, if_neg hname]

end

theorem ScopeTable.scope?_addChild (t : ScopeTable) (parent id : ScopeId) (name : String)
    (returns : Option Ty) :
    (t.addChild parent name returns).scope? id =
      if id = t.size then some (Scope.empty name returns (some parent))
      else (t.modify parent (·.addChild name t.size)).scope? id := by
  have hlength : (t.modify parent (·.addChild name t.size)).scopes.length = t.size :=
    ScopeTable.size_modify _
  rw [ScopeTable.addChild, ScopeTable.scope?, ScopeTable.scope?]
  by_cases hid : id = t.size
  · rw [if_pos hid, List.getElem?_append_right (by rw [hid]; exact Nat.le_of_eq hlength), hid]
    exact congrArg _ (Nat.sub_eq_zero_of_le (Nat.le_of_eq hlength.symm))
  · rw [if_neg hid]
    rcases Nat.lt_or_gt_of_ne hid with hlt | hgt
    · exact List.getElem?_append_left (Nat.lt_of_lt_of_eq hlt hlength.symm)
    · rw [List.getElem?_eq_none, List.getElem?_eq_none]
      · exact Nat.le_trans (Nat.le_of_eq hlength) (Nat.le_of_lt hgt)
      · rw [List.length_append]
        exact Nat.le_trans (Nat.le_of_eq (congrArg (· + 1) hlength)) hgt

theorem ScopeTable.size_addChild (t : ScopeTable) (parent : ScopeId) (name : String)
    (returns : Option Ty) : (t.addChild parent name returns).size = t.size + 1 := by
  simp [ScopeTable.addChild, ScopeTable.size, ScopeTable.modify]

theorem ScopeTable.size_pos {t : ScopeTable} {g : Scope} (h : t.scope? globalId = some g) :
    0 < t.size :=
  (List.getElem?_eq_some_iff.1 h).1

/-- What declaring some functions leaves of a table with the global scope `g`. -/
structure ScopeTable.Extends (t : ScopeTable) (g : Scope) (fs : List (FuncDef Tag))
    (t' : ScopeTable) : Prop where
  size : t'.size = t.size + fs.length
  outer : t'.scope? globalId = some (g.bindFunctions t.size fs)
  old : ∀ id, id ≠ globalId → id < t.size → t'.scope? id = t.scope? id
  own : ∀ i f, fs[i]? = some f → t'.scope? (t.size + i) = some f.ownScope

theorem FuncDef.declare_extends {t : ScopeTable} {g : Scope} (hg : t.scope? globalId = some g)
    (f : FuncDef Tag) : t.Extends g [f] (f.declare t).scopes := by
  have hpos : 0 < t.size := ScopeTable.size_pos hg
  have hsize : ∀ type, (t.define globalId f.name type).size = t.size := fun _ ↦
    ScopeTable.size_modify _
  have hown : ((t.define globalId f.name (some (.func f.signature))).addChild globalId f.name
      (some (.prim f.signature.returns))).scope? t.size =
        some (Scope.empty f.name (some (.prim f.signature.returns)) (some globalId)) := by
    rw [ScopeTable.scope?_addChild, hsize, if_pos rfl]
  have hscope : ∀ id, (f.declare t).scopes.scope? id = if t.size = id then some f.ownScope
      else ((t.define globalId f.name (some (.func f.signature))).addChild globalId f.name
        (some (.prim f.signature.returns))).scope? id := by
    intro id
    have h := @Param.scope?_foldl_declare _ _ _ id _ hown f.params
    rw [← hsize (some (.func f.signature))] at h ⊢
    exact h
  refine ⟨?_, ?_, ?_, ?_⟩
  · rw [FuncDef.declare]
    simp only [Param.size_foldl_declare, ScopeTable.size_addChild, hsize, List.length_singleton]
  · rw [hscope, if_neg (Nat.ne_of_gt hpos), ScopeTable.scope?_addChild, hsize,
      if_neg (Nat.ne_of_lt hpos), ScopeTable.scope?_modify, if_pos rfl,
      ScopeTable.scope?_define_self hg]
    rfl
  · intro id hne hlt
    rw [hscope, if_neg (Nat.ne_of_gt hlt), ScopeTable.scope?_addChild, hsize,
      if_neg (Nat.ne_of_lt hlt), ScopeTable.scope?_modify, if_neg hne.symm,
      ScopeTable.scope?_define_ne hne]
  · intro i f' hf'
    cases i with
    | zero =>
      obtain rfl : f = f' := by simpa using hf'
      exact (hscope t.size).trans (if_pos rfl)
    | succ i => simp at hf'

theorem FuncDef.declareAll_extends {t : ScopeTable} {g : Scope} (hg : t.scope? globalId = some g)
    (fs : List (FuncDef Tag)) :
    (FuncDef.declareAll t fs).fault = none ∧ t.Extends g fs (FuncDef.declareAll t fs).scopes := by
  induction fs generalizing t g with
  | nil => exact ⟨rfl, rfl, hg, fun _ _ _ ↦ rfl, by simp⟩
  | cons f fs ih =>
    have hfirst := FuncDef.declare_extends hg f
    obtain ⟨hfault, hlater⟩ := ih hfirst.outer
    have hsize : (f.declare t).scopes.size = t.size + 1 := hfirst.size
    refine ⟨hfault, ?_, ?_, ?_, ?_⟩
    · refine hlater.size.trans ?_
      rw [hsize, List.length_cons]
      omega
    · refine hlater.outer.trans ?_
      rw [hsize]
      rfl
    · intro id hne hlt
      have hlt' : id < (f.declare t).scopes.size := hsize ▸ Nat.lt_succ_of_lt hlt
      exact (hlater.old id hne hlt').trans (hfirst.old id hne hlt)
    · intro i f' hf'
      cases i with
      | zero =>
        obtain rfl : f = f' := by simpa using hf'
        have hne : t.size ≠ globalId := Nat.ne_of_gt (ScopeTable.size_pos hg)
        have hlt : t.size < (f.declare t).scopes.size := hsize ▸ Nat.lt_succ_self _
        exact (hlater.old t.size hne hlt).trans (hfirst.own 0 f rfl)
      | succ i =>
        rw [List.getElem?_cons_succ] at hf'
        have hown := hlater.own i f' hf'
        rw [hsize, Nat.add_right_comm] at hown
        exact hown

end ScriptAnalysis
