import ScriptAnalysis.Proofs.Events

/-!
# What the scopes hold after an analysis

The global scope holds the functions, each as its last definition gives it. The scope of a body
holds its variables and parameters, each numbered by its last place among its kind; a name that was
bound before its last declaration, and a variable whose value does not fit, are bound to `error`.
-/

namespace ScriptAnalysis

open ScopeTable (globalId globalName mainName)

section

variable {α : Type} {name : α → String} {before xs : List α} {x : α} {i : Nat}

theorem lastAt_append : LastAt name (before ++ xs) (before.length + i) x ↔ LastAt name xs i x := by
  have hget : (before ++ xs)[before.length + i]? = xs[i]? := by
    rw [List.getElem?_append_right (Nat.le_add_right _ _), Nat.add_sub_cancel_left]
  have hdrop : (before ++ xs).drop (before.length + i + 1) = xs.drop (i + 1) :=
    List.drop_length_add_append (i + 1)
  constructor
  · intro h
    exact ⟨hget.symm.trans h.get, hdrop ▸ h.last⟩
  · intro h
    exact ⟨hget.trans h.get, hdrop.symm ▸ h.last⟩

/-- The last element with a name is the only one exactly if none before it has the name. -/
theorem LastAt.count_eq_one_iff (h : LastAt name xs i x) :
    (xs.map name).count (name x) = 1 ↔ name x ∉ (xs.take i).map name := by
  have hsplit : xs = xs.take i ++ x :: xs.drop (i + 1) := by
    obtain ⟨hlt, hget⟩ := List.getElem?_eq_some_iff.1 h.get
    rw [← hget, List.getElem_cons_drop, List.take_append_drop]
  have hlater : ((xs.drop (i + 1)).map name).count (name x) = 0 := by
    apply List.count_eq_zero.2
    intro hmem
    obtain ⟨y, hy, hname⟩ := List.mem_map.1 hmem
    exact h.last y hy hname
  have hcount : (xs.map name).count (name x) = ((xs.take i).map name).count (name x) + 1 :=
    calc
      _ = ((xs.take i ++ x :: xs.drop (i + 1)).map name).count (name x) := by rw [← hsplit]
      _ = _ := by
        rw [List.map_append, List.count_append, List.map_cons, List.count_cons_self, hlater]
  rw [hcount, ← List.count_eq_zero]
  omega

end

section

variable {α : Type} {s : Scope} {p : Param α} {ps : List (Param α)} {name : String}

theorem Param.get?_declareIn (s : Scope) (p : Param α) (name : String) :
    (p.declareIn s).get? name =
      if p.name = name then some ⟨p.name, some (.prim (if (s.get? p.name).isSome = true then .error
        else Prim.declared p.type)), true, s.nextParameter⟩
      else s.get? name :=
  s.get?_defineParam p.name name _

theorem Param.get?_foldl_declareIn_of_notMem (h : name ∉ ps.map Param.name) :
    (ps.foldl Param.declareIn s).get? name = s.get? name := by
  induction ps generalizing s with
  | nil => rfl
  | cons p ps ih =>
    rw [List.map_cons, List.mem_cons, not_or] at h
    rw [List.foldl_cons, ih h.2, Param.get?_declareIn, if_neg (Ne.symm h.1)]

/-- The last parameter of a name is bound, to `error` if the name was bound before. -/
theorem Param.get?_foldl_declareIn_of_lastAt {i : Nat} (h : LastAt Param.name ps i p) :
    (ps.foldl Param.declareIn s).get? p.name =
      some ⟨p.name, some (.prim (if (s.get? p.name).isSome = true ∨
        p.name ∈ (ps.take i).map Param.name then .error else Prim.declared p.type)), true,
        s.nextParameter + i⟩ := by
  induction ps generalizing s i with
  | nil => simpa using h.get
  | cons first ps ih =>
    rw [List.foldl_cons]
    cases i with
    | zero =>
      obtain ⟨rfl, hname⟩ := lastAt_zero.1 h
      rw [Param.get?_foldl_declareIn_of_notMem hname, Param.get?_declareIn, if_pos rfl]
      simp
    | succ i =>
      have hbound : ((first.declareIn s).get? p.name).isSome = true ↔
          first.name = p.name ∨ (s.get? p.name).isSome = true := by
        rw [Param.get?_declareIn]
        by_cases hname : first.name = p.name <;> simp [hname]
      rw [ih (lastAt_succ.1 h)]
      have hnumber : (first.declareIn s).nextParameter + i = s.nextParameter + (i + 1) :=
        Nat.add_right_comm s.nextParameter 1 i
      simp only [hnumber, hbound, List.take_succ_cons, List.map_cons, List.mem_cons, or_assoc,
        or_left_comm, @eq_comm _ first.name]

theorem Param.nextVariable_foldl_declareIn (s : Scope) (ps : List (Param α)) :
    (ps.foldl Param.declareIn s).nextVariable = s.nextVariable := by
  induction ps generalizing s with
  | nil => rfl
  | cons p ps ih => exact ih (p.declareIn s)

end

/-- Whether a table of types holds what some events give. -/
def TypeTable.Knows (types : TypeTable) (events : List Event) : Prop :=
  ∀ node type, .typed node type ∈ events → types.get? node.id = some type

/-- The type that a declaration binds its name to where some names are taken: the declared one, if
the name is free and the value fits. -/
def VarDecl.typeAmong (types : TypeTable) (taken : List String) (d : VarDecl Tag) : Prim :=
  if d.name ∉ taken ∧
      ∀ e ∈ d.init, types.get? e.note.id = some (.prim (Prim.declared d.type)) then
    Prim.declared d.type
  else .error

section

variable {types : TypeTable} {t : ScopeTable} {id : ScopeId} {g s : Scope} {d : VarDecl Tag}
  {ds : List (VarDecl Tag)} {taken : List String}

theorem VarDecl.bound_eq_typeAmong (hknows : types.Knows (d.check t id).events)
    (htaken : d.name ∈ taken ↔ (t.resolve? id d.name).isSome = true) :
    d.bound t id = d.typeAmong types taken := by
  have hvalue : ∀ e ∈ d.init, types.get? e.note.id = some (e.infer (t.env id)).type := by
    intro e he
    exact hknows _ _ ((VarDecl.infix_check he).mem (e.typed_mem_infer _))
  have hfits : (∀ e ∈ d.init, types.get? e.note.id = some (.prim (Prim.declared d.type))) ↔
      ¬ ∃ e ∈ d.init, (e.infer (t.env id)).type ≠ .prim (Prim.declared d.type) := by
    constructor
    · rintro hall ⟨e, he, hne⟩
      exact hne (Option.some.inj ((hvalue e he).symm.trans (hall e he)))
    · intro hnone e he
      rw [hvalue e he, Decidable.not_not.1 fun hne ↦ hnone ⟨e, he, hne⟩]
  unfold VarDecl.bound VarDecl.typeAmong
  by_cases hbound : (t.resolve? id d.name).isSome = true
  · rw [if_pos (.inl hbound), if_neg fun h ↦ h.1 (htaken.2 hbound)]
  · by_cases hwrong : ∃ e ∈ d.init, (e.infer (t.env id)).type ≠ .prim (Prim.declared d.type)
    · rw [if_pos (.inr hwrong), if_neg fun h ↦ hfits.1 h.2 hwrong]
    · rw [if_neg fun h ↦ h.elim hbound hwrong,
        if_pos ⟨fun hmem ↦ hbound (htaken.1 hmem), hfits.2 hwrong⟩]

/-- Declarations number their variables on, and the last one of a name counts. -/
theorem VarDecl.get?_checkAll (h : t.Inside id g s)
    (hknows : types.Knows (VarDecl.checkAll t id ds).events)
    (htaken : ∀ name, name ∈ taken ↔ (t.resolve? id name).isSome = true) :
    ∃ s', (VarDecl.checkAll t id ds).scopes.scope? id = some s' ∧
      (∀ name, name ∉ ds.map VarDecl.name → s'.get? name = s.get? name) ∧
      ∀ k d, LastAt VarDecl.name ds k d → s'.get? d.name =
        some ⟨d.name, some (.prim (d.typeAmong types (taken ++ (ds.take k).map VarDecl.name))),
          false, s.nextVariable + k⟩ := by
  induction ds generalizing t s taken with
  | nil => exact ⟨s, h.inner, fun _ _ ↦ rfl, fun k d hd ↦ by simpa using hd.get⟩
  | cons first ds ih =>
    have hfirst : first.bound t id = first.typeAmong types taken :=
      VarDecl.bound_eq_typeAmong
        (fun node type hmem ↦ hknows node type (List.mem_append_left _ hmem)) (htaken first.name)
    have hget (name : String) :
        (s.define first.name (some (.prim (first.bound t id)))).get? name =
          if first.name = name then
            some ⟨first.name, some (.prim (first.typeAmong types taken)), false, s.nextVariable⟩
          else s.get? name := by
      rw [Scope.get?_define, hfirst]
      rfl
    have htaken' : ∀ name, name ∈ taken ++ [first.name] ↔
        ((first.check t id).scopes.resolve? id name).isSome = true := by
      intro name
      rw [List.mem_append, List.mem_singleton, htaken, h.resolve?, (h.check first).resolve?, hget]
      by_cases hname : first.name = name <;> simp [hname, @eq_comm _ name]
    obtain ⟨s', hs', hothers, hlast⟩ := ih (h.check first)
      (fun node type hmem ↦ hknows node type (List.mem_append_right _ hmem)) htaken'
    refine ⟨s', hs', ?_, ?_⟩
    · intro name hname
      rw [List.map_cons, List.mem_cons, not_or] at hname
      rw [hothers name hname.2, hget, if_neg (Ne.symm hname.1)]
    · intro k d hd
      cases k with
      | zero =>
        obtain ⟨rfl, hname⟩ := lastAt_zero.1 hd
        rw [hothers first.name hname, hget, if_pos rfl]
        simp
      | succ k =>
        have hnumber : (s.define first.name (some (.prim (first.bound t id)))).nextVariable + k =
            s.nextVariable + (k + 1) := Nat.add_right_comm s.nextVariable 1 k
        rw [hlast k d (lastAt_succ.1 hd), hnumber, List.append_assoc]
        rfl

end

/-- Whether a scope holds just the variables and parameters of a body, under what was found for the
values of the variables. -/
structure Scope.HoldsBody (scope : Scope) (types : TypeTable) (functions : List String)
    (ps : List (Param Tag)) (ds : List (VarDecl Tag)) : Prop where
  vars : ∀ k d, LastAt VarDecl.name ds k d → scope.get? d.name =
    some ⟨d.name, some (.prim (d.typeAmong types
      (functions ++ ps.map Param.name ++ (ds.take k).map VarDecl.name))), false, k⟩
  params : ∀ i p, LastAt Param.name ps i p → p.name ∉ ds.map VarDecl.name →
    scope.get? p.name = some ⟨p.name, some (.prim (if (ps.map Param.name).count p.name = 1
      then Prim.declared p.type else .error)), true, i⟩
  others : ∀ name, name ∉ ds.map VarDecl.name → name ∉ ps.map Param.name → scope.get? name = none

section

variable {ps : List (Param Tag)} {name : String} {returns : Option Ty}

theorem Param.get?_openScope_of_notMem (h : name ∉ ps.map Param.name) (own : String) :
    (Param.openScope own returns ps).get? name = none :=
  (Param.get?_foldl_declareIn_of_notMem h).trans (Scope.get?_empty _ _ _ _)

theorem Param.get?_openScope_of_lastAt {i : Nat} {p : Param Tag} (h : LastAt Param.name ps i p)
    (own : String) :
    (Param.openScope own returns ps).get? p.name =
      some ⟨p.name, some (.prim (if (ps.map Param.name).count p.name = 1
        then Prim.declared p.type else .error)), true, i⟩ := by
  have hnumber : (Scope.empty own returns (some globalId)).nextParameter + i = i := Nat.zero_add i
  unfold Param.openScope
  rw [Param.get?_foldl_declareIn_of_lastAt h, Scope.get?_empty, hnumber]
  by_cases hbefore : p.name ∈ (ps.take i).map Param.name
  · rw [if_pos (.inr hbefore), if_neg fun hcount ↦ h.count_eq_one_iff.1 hcount hbefore]
  · rw [if_neg (by simpa using hbefore), if_pos (h.count_eq_one_iff.2 hbefore)]

theorem Param.isSome_get?_openScope (own : String) :
    ((Param.openScope own returns ps).get? name).isSome = true ↔ name ∈ ps.map Param.name := by
  by_cases hmem : name ∈ ps.map Param.name
  · obtain ⟨i, p, hp, rfl⟩ := exists_lastAt hmem
    rw [Param.get?_openScope_of_lastAt hp]
    exact iff_of_true rfl hmem
  · rw [Param.get?_openScope_of_notMem hmem]
    exact iff_of_false (by simp) hmem

theorem Script.isSome_get?_globalScope {s : Script Tag} :
    (s.globalScope.get? name).isSome = true ↔ name ∈ s.funcs.map FuncDef.name := by
  constructor
  · intro hsome
    obtain ⟨symbol, hsymbol⟩ := Option.isSome_iff_exists.1 hsome
    obtain ⟨i, f, hf, rfl, -⟩ := Script.get?_globalScope.1 hsymbol
    exact List.mem_map_of_mem (List.mem_of_getElem? hf.get)
  · intro hmem
    obtain ⟨i, f, hf, hname⟩ := exists_lastAt hmem
    rw [Script.get?_globalScope.2 ⟨i, f, hf, hname, rfl⟩]
    rfl

/-- Before the variables of a body, the functions and its parameters are bound. -/
theorem ScopeTable.Inside.isSome_resolve? {s : Script Tag} {t : ScopeTable} {id : ScopeId}
    {own : String} (h : t.Inside id s.globalScope (Param.openScope own returns ps)) :
    name ∈ s.funcs.map FuncDef.name ++ ps.map Param.name ↔ (t.resolve? id name).isSome = true := by
  rw [h.resolve?, Option.isSome_or, Bool.or_eq_true, Param.isSome_get?_openScope,
    Script.isSome_get?_globalScope, List.mem_append, or_comm]

theorem Body.knows_checkAll {types : TypeTable} {t : ScopeTable} {id : ScopeId} {body : Body Tag}
    {locals : List Local} {closing : List Event}
    (h : types.Knows (body.check t id locals closing).events) :
    types.Knows (VarDecl.checkAll t id body.vars.decls).events := by
  intro node type hmem
  apply h
  apply (infix_closeLocals).mem
  exact List.mem_append_left _ (List.mem_append_left _ hmem)

/-- A body that is walked in its scope leaves there just its variables and parameters. -/
theorem Body.exists_holdsBody {types : TypeTable} {s : Script Tag} {t : ScopeTable} {id : ScopeId}
    {body : Body Tag} {locals : List Local} {closing : List Event} {own : String}
    (h : t.Inside id s.globalScope (Param.openScope own returns ps))
    (hknows : types.Knows (body.check t id locals closing).events) :
    ∃ scope, (body.check t id locals closing).scopes.scope? id = some scope ∧
      scope.HoldsBody types (s.funcs.map FuncDef.name) ps body.vars.decls := by
  obtain ⟨scope, hscope, hothers, hlast⟩ :=
    VarDecl.get?_checkAll h (Body.knows_checkAll hknows) fun name ↦ h.isSome_resolve?
  have hnumber (k : Nat) : (Param.openScope own returns ps).nextVariable + k = k := by
    unfold Param.openScope
    rw [Param.nextVariable_foldl_declareIn]
    exact Nat.zero_add k
  refine ⟨scope, ?_, ?_, ?_, ?_⟩
  · rw [Body.check, scopes_closeLocals]
    exact hscope
  · intro k d hd
    rw [hlast k d hd, hnumber]
  · intro i p hp hname
    rw [hothers p.name hname, Param.get?_openScope_of_lastAt hp]
  · intro name hname hparam
    rw [hothers name hname, Param.get?_openScope_of_notMem hparam]

end

theorem Script.children_globalScope {s : Script Tag} {b : Body Tag} (hmain : s.main = some b)
    (hfs : ∀ f ∈ s.funcs, f.Written) {name : String} {id : ScopeId} :
    s.globalScope.children[name]? = some id ↔
      (∃ i f, LastAt FuncDef.name s.funcs i f ∧ f.name = name ∧ id = 1 + i) ∨
        name = mainName ∧ id = 1 + s.funcs.length := by
  let outer := Scope.empty globalName none none
  have hchildren : s.globalScope.children[name]? = if mainName = name then
      some (1 + s.funcs.length) else (outer.bindFunctions 1 s.funcs).children[name]? := by
    unfold Script.globalScope
    rw [hmain]
    exact Scope.children_addChild _ _ _ _
  rw [hchildren]
  by_cases hname : mainName = name
  · -- No function has the name of the main part.
    subst hname
    have hnone : ¬ ∃ i f, LastAt FuncDef.name s.funcs i f ∧ f.name = mainName ∧ id = 1 + i := by
      rintro ⟨i, f, hf, hname, -⟩
      exact (hfs f (List.mem_of_getElem? hf.get)).name hname
    rw [if_pos rfl, Option.some.injEq, or_iff_right hnone]
    exact ⟨fun heq ↦ ⟨rfl, heq.symm⟩, fun h ↦ h.2.symm⟩
  · rw [if_neg hname, or_iff_left fun h ↦ hname h.1.symm]
    constructor
    · intro hchild
      by_cases hmem : name ∈ s.funcs.map FuncDef.name
      · obtain ⟨i, f, hf, rfl⟩ := exists_lastAt hmem
        rw [(outer.bindFunctions_of_lastAt 1 hf).1, Option.some.injEq] at hchild
        exact ⟨i, f, hf, rfl, hchild.symm⟩
      · rw [(outer.bindFunctions_of_notMem 1 hmem).1] at hchild
        simp [outer, Scope.empty] at hchild
    · rintro ⟨i, f, hf, rfl, rfl⟩
      exact (outer.bindFunctions_of_lastAt 1 hf).1

/-- After the analysis of a program, valid or not, the global scope binds the functions and has
their scopes and that of the main part for its children; each of these scopes holds just the
variables and parameters of its body. -/
theorem scopes_hold_declarations {source : String} {s : Script Tag}
    (h : Script.parse source = .ok s) (options : Options) :
    (∃ g, (s.analyze options).scopes.scope? globalId = some g ∧
      (∀ name symbol, g.get? name = some symbol ↔
        ∃ i f, LastAt FuncDef.name s.funcs i f ∧ f.name = name ∧
          symbol = ⟨name, some (.func f.signature), false, 0⟩) ∧
      ∀ name id, g.children[name]? = some id ↔
        (∃ i f, LastAt FuncDef.name s.funcs i f ∧ f.name = name ∧ id = 1 + i) ∨
          name = mainName ∧ id = 1 + s.funcs.length) ∧
    ∀ id params body, s.Visits id params body →
      ∃ scope, (s.analyze options).scopes.scope? id = some scope ∧
        scope.HoldsBody (s.analyze options).types (s.funcs.map FuncDef.name) params
          body.vars.decls := by
  obtain ⟨b, mid, events, htour⟩ := Script.exists_tour h
  have hknows : (s.analyze options).types.Knows (Node.script s).secondWalk.events := by
    intro node type hmem
    exact ((Node.ReadFrom.script h).types_get?_iff options).2 ⟨node, rfl, hmem⟩
  constructor
  · refine ⟨s.globalScope, ?_, fun _ _ ↦ Script.get?_globalScope,
      fun _ _ ↦ Script.children_globalScope htour.main (Script.written_of_parse h).1⟩
    have hscopes : (s.analyze options).scopes = (Node.script s).secondWalk.scopes := rfl
    rw [hscopes, htour.check]
    exact (Body.scope?_check_ne (Script.one_add_ne_globalId _).symm).trans htour.outer
  · intro id params body hvisits
    obtain ⟨t, own, returns, locals, closing, hinside, -, hevents, hscope⟩ := htour.visit hvisits
    have hbody : (s.analyze options).types.Knows (body.check t id locals closing).events := by
      intro node type hmem
      exact hknows node type (((Pass.infix_around _ _ _ _).trans hevents).mem hmem)
    obtain ⟨scope, hown, hholds⟩ := Body.exists_holdsBody hinside hbody
    exact ⟨scope, hscope.trans hown, hholds⟩

/-- A repeated parameter and a repeated variable are bound to `error` in their last places. -/
theorem scopes_hold_declarations_repeated :
    ∃ s, Script.parse "func f(a:Int,a:Int){}var x:Int var x:Int" = .ok s ∧
      (∃ own, (s.analyze {}).scopes.scope? 1 = some own ∧
        own.get? "a" = some ⟨"a", some .error, true, 1⟩ ∧ own.get? "x" = none) ∧
      ∃ main, (s.analyze {}).scopes.scope? 2 = some main ∧
        main.get? "x" = some ⟨"x", some .error, false, 1⟩ ∧ main.get? "a" = none := by
  obtain ⟨_, _, _, _, _, _, _, _, _, _, _, _, hs⟩ : ∃ a b c d e f g h i j k l,
      Script.parse "func f(a:Int,a:Int){}var x:Int var x:Int" =
        .ok ⟨a, [⟨b, "f", [⟨c, "a", "Int"⟩, ⟨d, "a", "Int"⟩], "", ⟨e, ⟨f, []⟩, .mk g []⟩⟩],
          some ⟨h, ⟨i, [⟨j, "x", "Int", none⟩, ⟨k, "x", "Int", none⟩]⟩, .mk l []⟩⟩ := by
    refine ⟨?_, ?_, ?_, ?_, ?_, ?_, ?_, ?_, ?_, ?_, ?_, ?_, ?parse⟩
    case parse =>
      cbv
      rfl
  obtain ⟨-, hscopes⟩ := scopes_hold_declarations hs {}
  obtain ⟨own, hown, hfunc⟩ := hscopes _ _ _ (@Script.Visits.func _ 0 _ ⟨rfl, by simp⟩)
  obtain ⟨main, hmain, hbody⟩ := hscopes _ _ _ (.main rfl)
  have ha : own.get? "a" = some ⟨"a", some .error, true, 1⟩ :=
    hfunc.params 1 _ ⟨rfl, by simp⟩ (by simp)
  have hx : main.get? "x" = some ⟨"x", some .error, false, 1⟩ := hbody.vars 1 _ ⟨rfl, by simp⟩
  exact ⟨_, hs, ⟨own, hown, ha, hfunc.others "x" (by simp) (by simp)⟩,
    main, hmain, hx, hbody.others "a" (by simp) (by simp)⟩

end ScriptAnalysis
