import ScriptAnalysis.Proofs.Twins

/-!
# What the first walk registers

The first walk binds every function in the global scope and registers a scope under its name; of
definitions with one name the last counts. So what stands under a name afterwards, and what the name
is bound to, is told by the last definition of the name alone, or is what was there before.
-/

namespace ScriptAnalysis

open ScopeTable (globalId globalName mainName)

section

variable {α β : Type} {value : FuncDef α → β} {name : String} {fs fs' : List (FuncDef α)}

/-- What the last definition of a name gives, or else what was there before. -/
def FuncDef.lastNamed (value : FuncDef α → β) (name : String) (before : Option β)
    (fs : List (FuncDef α)) : Option β :=
  fs.foldl (fun found f ↦ if f.name = name then some (value f) else found) before

theorem FuncDef.lastNamed_of_notMem (h : name ∉ fs.map FuncDef.name) (before : Option β) :
    FuncDef.lastNamed value name before fs = before := by
  unfold FuncDef.lastNamed
  induction fs generalizing before with
  | nil => rfl
  | cons f fs ih =>
    rw [List.map_cons, List.mem_cons, not_or] at h
    rw [List.foldl_cons, if_neg (Ne.symm h.1), ih h.2]

theorem FuncDef.lastNamed_of_mem (h : name ∈ fs.map FuncDef.name) (before before' : Option β) :
    FuncDef.lastNamed value name before fs = FuncDef.lastNamed value name before' fs := by
  unfold FuncDef.lastNamed
  induction fs generalizing before before' with
  | nil => cases h
  | cons f fs ih =>
    rw [List.foldl_cons, List.foldl_cons]
    by_cases hlater : name ∈ fs.map FuncDef.name
    · exact ih hlater _ _
    · have hname : f.name = name := by
        rw [List.map_cons, List.mem_cons] at h
        exact (h.resolve_right hlater).symm
      rw [if_pos hname, if_pos hname]

theorem FuncDef.lastNamed_ne_none (h : name ∈ fs.map FuncDef.name) (before : Option β) :
    FuncDef.lastNamed value name before fs ≠ none := by
  unfold FuncDef.lastNamed
  induction fs generalizing before with
  | nil => cases h
  | cons f fs ih =>
    rw [List.foldl_cons]
    by_cases hlater : name ∈ fs.map FuncDef.name
    · exact ih hlater _
    · have hname : f.name = name := by
        rw [List.map_cons, List.mem_cons] at h
        exact (h.resolve_right hlater).symm
      have hkept : FuncDef.lastNamed value name (some (value f)) fs = some (value f) :=
        FuncDef.lastNamed_of_notMem hlater _
      unfold FuncDef.lastNamed at hkept
      rw [if_pos hname, hkept]
      exact nofun

/-- What is there already is found again, or replaced by the same. -/
theorem FuncDef.lastNamed_idem (before : Option β) :
    FuncDef.lastNamed value name (FuncDef.lastNamed value name before fs) fs =
      FuncDef.lastNamed value name before fs := by
  by_cases h : name ∈ fs.map FuncDef.name
  · exact FuncDef.lastNamed_of_mem h _ _
  · exact FuncDef.lastNamed_of_notMem h _

/-- Among definitions with different names their order makes no difference. -/
theorem FuncDef.lastNamed_perm (h : fs.Perm fs') (hnodup : (fs.map FuncDef.name).Nodup)
    (before : Option β) :
    FuncDef.lastNamed value name before fs = FuncDef.lastNamed value name before fs' := by
  unfold FuncDef.lastNamed
  apply h.foldl_eq'
  intro f hf f' hf' found
  by_cases hname : f.name = name
  · by_cases hname' : f'.name = name
    · obtain rfl : f = f' := List.inj_on_of_nodup_map hnodup hf hf' (hname.trans hname'.symm)
      rfl
    · rw [if_pos hname, if_neg hname', if_pos hname]
  · rw [if_neg hname, if_neg hname]

end

/-- The symbol that a definition binds. -/
def FuncDef.symbol {α : Type} (f : FuncDef α) : Symbol :=
  ⟨f.name, some (.func f.signature), false, 0⟩

/-- A scope with the symbols of some definitions. -/
def Scope.bindAll {α : Type} (s : Scope) (fs : List (FuncDef α)) : Scope :=
  fs.foldl (fun s f ↦ s.define f.name (some (.func f.signature))) s

section

variable {α : Type} {s s' : Scope}

theorem Scope.bare_bindFunctions (s : Scope) (next : ScopeId) (fs : List (FuncDef α)) :
    (s.bindFunctions next fs).bare = s.bare.bindAll fs := by
  induction fs generalizing s next with
  | nil => rfl
  | cons f fs ih => exact ih _ _

theorem Scope.get?_bindAll (s : Scope) (fs : List (FuncDef α)) (name : String) :
    (s.bindAll fs).get? name = FuncDef.lastNamed FuncDef.symbol name (s.get? name) fs := by
  unfold Scope.bindAll FuncDef.lastNamed
  induction fs generalizing s with
  | nil => rfl
  | cons f fs ih =>
    rw [List.foldl_cons, List.foldl_cons, ih, Scope.get?_define]
    rfl

theorem Scope.eq_of_get?_eq (hget : ∀ name, s.get? name = s'.get? name)
    (hrest : { s with symbols := ∅ } = { s' with symbols := ∅ }) : s = s' := by
  have hsymbols : s.symbols = s'.symbols := Std.ExtTreeMap.ext_getElem? hget
  obtain ⟨name, returns, parent, symbols, children, nextVariable, nextParameter⟩ := s
  obtain ⟨name', returns', parent', symbols', children', nextVariable', nextParameter'⟩ := s'
  simp only [Scope.mk.injEq] at hrest hsymbols ⊢
  simp only [hrest, hsymbols, and_self]

theorem Scope.rest_bindAll (s : Scope) (fs : List (FuncDef α)) :
    { s.bindAll fs with symbols := ∅ } = { s with symbols := ∅ } := by
  unfold Scope.bindAll
  induction fs generalizing s with
  | nil => rfl
  | cons f fs ih => exact ih _

theorem Scope.bindAll_idem (s : Scope) (fs : List (FuncDef α)) :
    (s.bindAll fs).bindAll fs = s.bindAll fs := by
  apply Scope.eq_of_get?_eq
  · intro name
    rw [Scope.get?_bindAll, Scope.get?_bindAll, FuncDef.lastNamed_idem]
  · exact Scope.rest_bindAll _ fs

theorem Scope.bindAll_perm {fs fs' : List (FuncDef α)} (h : fs.Perm fs')
    (hnodup : (fs.map FuncDef.name).Nodup) (s : Scope) : s.bindAll fs = s.bindAll fs' := by
  apply Scope.eq_of_get?_eq
  · intro name
    rw [Scope.get?_bindAll, Scope.get?_bindAll, FuncDef.lastNamed_perm h hnodup]
  · rw [Scope.rest_bindAll, Scope.rest_bindAll]

end

theorem Param.frame_foldl_declareIn {α : Type} (s : Scope) (ps : List (Param α)) :
    (ps.foldl Param.declareIn s).name = s.name ∧
      (ps.foldl Param.declareIn s).children = s.children := by
  induction ps generalizing s with
  | nil => exact ⟨rfl, rfl⟩
  | cons p ps ih => exact ih _

section

variable {t t' : ScopeTable} {g g' : Scope}

/-- A table after a scope is registered in its global scope under a name. -/
theorem ScopeTable.Flat.register (h : t.Flat g) (bound : Scope) {name : String} {s : Scope}
    (hbound : bound.parent = none ∧ bound.children = g.children)
    (houter : t'.scope? globalId = some (bound.addChild name t.size))
    (hold : ∀ id, id ≠ globalId → id < t.size → t'.scope? id = t.scope? id)
    (hnew : t'.scope? t.size = some s)
    (hs : s.name = name ∧ s.parent = some globalId ∧ s.children = ∅) :
    t'.Flat (bound.addChild name t.size) ∧
      ∀ other, t'.under other = if name = other then some s else t.under other := by
  have hchildren (other : String) : (bound.addChild name t.size).children[other]? =
      if name = other then some t.size else g.children[other]? := by
    rw [Scope.children_addChild, hbound.2]
  have hkept : ∀ {other : String} {id : ScopeId}, g.children[other]? = some id →
      t'.scope? id = t.scope? id := by
    intro other id hchild
    obtain ⟨_, hinside⟩ := h.inside hchild
    exact hold id hinside.ne (List.getElem?_eq_some_iff.1 hinside.inner).1
  have hflat : t'.Flat (bound.addChild name t.size) := by
    refine ⟨houter, hbound.1, ?_⟩
    intro other id hchild
    rw [hchildren] at hchild
    by_cases hname : name = other
    · rw [if_pos hname] at hchild
      cases hchild
      exact ⟨s, hnew, hname ▸ hs⟩
    · rw [if_neg hname] at hchild
      rw [hkept hchild]
      exact h.inner other id hchild
  refine ⟨hflat, fun other ↦ ?_⟩
  rw [hflat.under_eq, hchildren, h.under_eq]
  by_cases hname : name = other
  · rw [if_pos hname, if_pos hname, Option.bind_some, hnew]
  · rw [if_neg hname, if_neg hname]
    cases hchild : g.children[other]? with
    | none => rfl
    | some id => exact hkept hchild

theorem FuncDef.declare_flat (h : t.Flat g) (f : FuncDef Tag) :
    (f.declare t).scopes.Flat (g.bindFunctions t.size [f]) ∧
      ∀ name, (f.declare t).scopes.under name =
        if f.name = name then some f.ownScope else t.under name := by
  have hextends := FuncDef.declare_extends h.outer f
  apply h.register (g.define f.name (some (.func f.signature))) ⟨h.top, rfl⟩ hextends.outer
    hextends.old (hextends.own 0 f rfl)
  obtain ⟨hname, hchildren⟩ := Param.frame_foldl_declareIn
    (Scope.empty f.name (some (.prim f.signature.returns)) (some globalId)) f.params
  exact ⟨hname, (Param.parent_foldl_declareIn _ f.params).1, hchildren⟩

theorem FuncDef.declareAll_flat (h : t.Flat g) (fs : List (FuncDef Tag)) :
    (FuncDef.declareAll t fs).scopes.Flat (g.bindFunctions t.size fs) ∧
      ∀ name, (FuncDef.declareAll t fs).scopes.under name =
        FuncDef.lastNamed FuncDef.ownScope name (t.under name) fs := by
  induction fs generalizing t g with
  | nil => exact ⟨h, fun _ ↦ rfl⟩
  | cons f fs ih =>
    obtain ⟨hflat, hunder⟩ := f.declare_flat h
    obtain ⟨hlater, hunders⟩ := ih hflat
    have hsize : (f.declare t).scopes.size = t.size + 1 := (FuncDef.declare_extends h.outer f).size
    rw [hsize] at hlater
    refine ⟨hlater, fun name ↦ (hunders name).trans ?_⟩
    rw [hunder]
    rfl

theorem Body.declareMain_flat (h : t.Flat g) (b : Body Tag) :
    (b.declareMain t).scopes.Flat (g.addChild mainName t.size) ∧
      ∀ name, (b.declareMain t).scopes.under name =
        if mainName = name then some Script.mainScope else t.under name := by
  have hpos : 0 < t.size := ScopeTable.size_pos h.outer
  apply h.register g ⟨h.top, rfl⟩
  · rw [Body.declareMain, ScopeTable.scope?_addChild, if_neg (Nat.ne_of_lt hpos),
      ScopeTable.scope?_modify, if_pos rfl, h.outer]
    rfl
  · intro id hne hlt
    rw [Body.declareMain, ScopeTable.scope?_addChild, if_neg (Nat.ne_of_lt hlt),
      ScopeTable.scope?_modify, if_neg hne.symm]
  · rw [Body.declareMain, ScopeTable.scope?_addChild, if_pos rfl]
    rfl
  · exact ⟨rfl, rfl, rfl⟩

/-- The scope under a name after the first walk over a program. -/
def Script.scopeUnder (s : Script Tag) (name : String) (before : Option Scope) : Option Scope :=
  if s.main.isSome ∧ mainName = name then some Script.mainScope
  else FuncDef.lastNamed FuncDef.ownScope name before s.funcs

theorem Script.declare_flat (h : t.Flat g) (s : Script Tag) :
    ∃ g₁, (s.declare t).scopes.Flat g₁ ∧ g₁.bare = g.bare.bindAll s.funcs ∧
      ∀ name, (s.declare t).scopes.under name = s.scopeUnder name (t.under name) := by
  obtain ⟨hflat, hunder⟩ := FuncDef.declareAll_flat h s.funcs
  have hfault := (FuncDef.declareAll_extends h.outer s.funcs).1
  unfold Script.scopeUnder
  rw [Script.declare, Walk.andThen_of_fault hfault]
  cases hmain : s.main with
  | none =>
    refine ⟨_, hflat, Scope.bare_bindFunctions _ _ _, fun name ↦ ?_⟩
    rw [if_neg (by simp)]
    exact hunder name
  | some b =>
    obtain ⟨hlast, hunders⟩ := b.declareMain_flat hflat
    refine ⟨_, hlast, Scope.bare_bindFunctions _ _ _, fun name ↦ ?_⟩
    refine (hunders name).trans ?_
    rw [hunder]
    by_cases hname : mainName = name
    · rw [if_pos hname, if_pos ⟨rfl, hname⟩]
    · rw [if_neg hname, if_neg (fun hand ↦ hname hand.2)]

theorem ScopeTable.flat_initial : ScopeTable.initial.Flat (Scope.empty globalName none none) := by
  refine ⟨rfl, rfl, ?_⟩
  intro name id hchild
  simp [Scope.empty] at hchild

theorem ScopeTable.under_initial (name : String) : ScopeTable.initial.under name = none := by
  rw [ScopeTable.flat_initial.under_eq]
  simp [Scope.empty]

end

section

variable {α β : Type}

/-- What a definition says before its body. -/
def FuncDef.header (f : FuncDef α) : String × List (Param Unit) × String :=
  (f.name, f.params.map (Param.map fun _ ↦ ()), f.returns)

theorem FuncDef.header_map (g : α → β) (f : FuncDef α) : (f.map g).header = f.header := by
  simp [FuncDef.header, FuncDef.map, Param.map]

theorem Param.foldl_declare_eq (scope : ScopeId) {ps : List (Param α)} {ps' : List (Param β)}
    (h : ps.map (Param.map fun _ ↦ ()) = ps'.map (Param.map fun _ ↦ ())) (t : ScopeTable) :
    ps.foldl (Param.declare scope) t = ps'.foldl (Param.declare scope) t := by
  calc
    _ = (ps.map (Param.map fun _ ↦ ())).foldl (Param.declare scope) t := List.foldl_map.symm
    _ = (ps'.map (Param.map fun _ ↦ ())).foldl (Param.declare scope) t := by rw [h]
    _ = _ := List.foldl_map

theorem FuncDef.signature_eq {f : FuncDef α} {f' : FuncDef β} (h : f.header = f'.header) :
    f.signature = f'.signature := by
  have hreturns : f.returns = f'.returns := congrArg (fun header ↦ header.2.2) h
  have htypes := congrArg (fun header ↦ header.2.1.map fun p ↦ Prim.declared p.type) h
  unfold FuncDef.header at htypes
  rw [List.map_map, List.map_map] at htypes
  exact congrArg₂ Signature.mk htypes (congrArg Prim.declared hreturns)

/-- The first walk reads nothing of a definition but its header. -/
theorem FuncDef.declare_eq {f f' : FuncDef Tag} (h : f.header = f'.header) (t : ScopeTable) :
    f.declare t = f'.declare t := by
  have hname : f.name = f'.name := congrArg Prod.fst h
  have hparams (scope : ScopeId) := Param.foldl_declare_eq scope
    (congrArg (fun header ↦ header.2.1) h)
  unfold FuncDef.declare
  simp only [hparams, hname, FuncDef.signature_eq h]

theorem FuncDef.declareAll_eq {fs fs' : List (FuncDef Tag)}
    (h : fs.map FuncDef.header = fs'.map FuncDef.header) (t : ScopeTable) :
    FuncDef.declareAll t fs = FuncDef.declareAll t fs' := by
  induction fs generalizing fs' t with
  | nil =>
    obtain rfl : fs' = [] := List.map_eq_nil_iff.1 h.symm
    rfl
  | cons f fs ih =>
    obtain ⟨f', others, rfl, hf, hothers⟩ := List.map_eq_cons_iff.1 h.symm
    rw [FuncDef.declareAll, FuncDef.declareAll, FuncDef.declare_eq hf]
    congr 1
    funext t
    exact ih hothers.symm t

theorem Script.declare_eq {s s' : Script Tag}
    (hfuncs : s.funcs.map FuncDef.header = s'.funcs.map FuncDef.header)
    (hmain : s.main.isSome = s'.main.isSome) (t : ScopeTable) : s.declare t = s'.declare t := by
  unfold Script.declare
  rw [FuncDef.declareAll_eq hfuncs]
  congr 1
  funext t
  cases hm : s.main <;> cases hm' : s'.main <;> simp_all [Body.declareMain]

end

end ScriptAnalysis
