import ScriptAnalysis.Proofs.Parallel
import ScriptAnalysis.Scope.Outline

/-!
# Tables compared by name

An answer never shows at which position of its table a scope stands: the second walk finds the scope
of a function by name, and an outline lists the scopes by name. Two tables in which every name leads
to the same scope are twins. Programs of one shape that are walked in twins tell alike events and
leave twins behind, and twins have one outline.
-/

namespace ScriptAnalysis

open ScopeTable (globalId mainName)

namespace ScopeTable

/-- Whether a table has the global scope `g`, and every child registered there lies right inside it,
bears the name it is registered under, and has no children itself. -/
structure Flat (t : ScopeTable) (g : Scope) : Prop where
  outer : t.scope? globalId = some g
  top : g.parent = none
  inner : ∀ name id, g.children[name]? = some id →
    ∃ s, t.scope? id = some s ∧ s.name = name ∧ s.parent = some globalId ∧ s.children = ∅

/-- The scope that is registered under a name in the global scope. -/
def under (t : ScopeTable) (name : String) : Option Scope :=
  (t.childNamed? globalId name).bind t.scope?

namespace Flat

variable {t : ScopeTable} {g : Scope} {name name' : String} {id id' : ScopeId}

theorem childNamed? (h : t.Flat g) (name : String) :
    t.childNamed? globalId name = g.children[name]? := childNamed?_of_scope? h.outer

theorem under_eq (h : t.Flat g) (name : String) :
    t.under name = g.children[name]?.bind t.scope? := by
  rw [under, h.childNamed?]

theorem inside (h : t.Flat g) (hchild : g.children[name]? = some id) : ∃ s, t.Inside id g s := by
  obtain ⟨s, hscope, -, hparent, -⟩ := h.inner name id hchild
  refine ⟨s, ?_, hscope, hparent, h.outer, h.top⟩
  intro hid
  rw [hid, h.outer] at hscope
  have hg : g = s := Option.some.inj hscope
  rw [← hg, h.top] at hparent
  cases hparent

/-- A scope is registered under one name only. -/
theorem name_eq (h : t.Flat g) (hchild : g.children[name]? = some id)
    (hchild' : g.children[name']? = some id) : name = name' := by
  obtain ⟨s, hscope, hname, -⟩ := h.inner name id hchild
  obtain ⟨s', hscope', hname', -⟩ := h.inner name' id hchild'
  rw [hscope] at hscope'
  cases hscope'
  exact hname.symm.trans hname'

theorem define (h : t.Flat g) (hne : id ≠ globalId) (name : String) (type : Option Ty) :
    (t.define id name type).Flat g := by
  refine ⟨(scope?_define_ne hne.symm type).trans h.outer, h.top, ?_⟩
  intro name' id' hchild
  obtain ⟨s, hscope, hrest⟩ := h.inner name' id' hchild
  by_cases hid : id' = id
  · subst hid
    exact ⟨s.define name type, scope?_define_self hscope type, hrest⟩
  · exact ⟨s, (scope?_define_ne hid type).trans hscope, hrest⟩

end Flat

end ScopeTable

/-- What a walk leaves of a table outside the scope it goes through. -/
structure Walk.StaysIn (t : ScopeTable) (id : ScopeId) (w : Walk) : Prop where
  others : ∀ id', id' ≠ id → w.scopes.scope? id' = t.scope? id'
  flat : ∀ g, t.Flat g → w.scopes.Flat g

theorem VarDecl.flat_checkAll {t : ScopeTable} {g : Scope} {id : ScopeId} (h : t.Flat g)
    (hne : id ≠ globalId) (ds : List (VarDecl Tag)) : (VarDecl.checkAll t id ds).scopes.Flat g := by
  induction ds generalizing t with
  | nil => exact h
  | cons d ds ih =>
    apply ih
    rw [d.scopes_check]
    exact h.define hne _ _

theorem Body.check_staysIn {t : ScopeTable} {id : ScopeId} (hne : id ≠ globalId)
    (params : List Local) (closing : List Event) (b : Body Tag) :
    (b.check t id params closing).StaysIn t id := by
  refine ⟨fun id' hid ↦ Body.scope?_check_ne hid, fun g h ↦ ?_⟩
  rw [Body.check, scopes_closeLocals]
  exact VarDecl.flat_checkAll h hne b.vars.decls

section

variable {t : ScopeTable} {g : Scope} {name : String} {walk : ScopeId → Walk}

theorem ScopeTable.Flat.scope?_within (h : t.Flat g)
    (hwalk : ∀ id, id ≠ globalId → (walk id).StaysIn t id) {id : ScopeId}
    (hid : g.children[name]? ≠ some id) : (t.within name walk).scopes.scope? id = t.scope? id := by
  unfold ScopeTable.within
  rw [h.childNamed?]
  cases hchild : g.children[name]? with
  | none => rfl
  | some own =>
    obtain ⟨s, hinside⟩ := h.inside hchild
    refine (hwalk own hinside.ne).others id ?_
    intro heq
    exact hid (hchild.trans (congrArg some heq.symm))

theorem ScopeTable.Flat.within (h : t.Flat g)
    (hwalk : ∀ id, id ≠ globalId → (walk id).StaysIn t id) :
    (t.within name walk).scopes.Flat g := by
  unfold ScopeTable.within
  rw [h.childNamed?]
  cases hchild : g.children[name]? with
  | none => exact h
  | some own =>
    obtain ⟨s, hinside⟩ := h.inside hchild
    exact (hwalk own hinside.ne).flat g h

theorem ScopeTable.Flat.under_within (h : t.Flat g)
    (hwalk : ∀ id, id ≠ globalId → (walk id).StaysIn t id) {other : String} (hne : other ≠ name) :
    (t.within name walk).scopes.under other = t.under other := by
  rw [(h.within hwalk).under_eq, h.under_eq]
  cases hchild : g.children[other]? with
  | none => rfl
  | some id =>
    apply h.scope?_within hwalk
    intro hown
    exact hne (h.name_eq hchild hown)

end

/-- A scope without its children. -/
def Scope.bare (s : Scope) : Scope := { s with children := ∅ }

/-- Whether two flat tables have global scopes that differ at most in where their children stand,
and the same scope under every name that counts. -/
structure ScopeTable.Twins (P : String → Prop) (g g' : Scope) (t t' : ScopeTable) : Prop where
  flat : t.Flat g
  flat' : t'.Flat g'
  bare : g.bare = g'.bare
  under : ∀ name, P name → t.under name = t'.under name

/-- Whether two walks tell alike events, end alike, and leave twins. -/
structure Walk.Twins (R : Tag → Tag → Prop) (P : String → Prop) (g g' : Scope) (w w' : Walk) :
    Prop extends Walk.Alike R w w' where
  scopes : ScopeTable.Twins P g g' w.scopes w'.scopes

variable {R : Tag → Tag → Prop} {P : String → Prop} {g g' : Scope} {t t' : ScopeTable}

theorem Walk.Twins.andThen {w w' : Walk} {next next' : ScopeTable → Walk}
    (h : w.Twins R P g g' w')
    (hnext : ScopeTable.Twins P g g' w.scopes w'.scopes →
      (next w.scopes).Twins R P g g' (next' w'.scopes)) :
    (w.andThen next).Twins R P g g' (w'.andThen next') := by
  have later := hnext h.scopes
  unfold Walk.andThen
  rw [← h.fault]
  cases hfault : w.fault with
  | none => exact ⟨⟨alike_append h.events later.events, later.fault⟩, later.scopes⟩
  | some fault => exact ⟨⟨h.events, h.fault⟩, h.scopes⟩

namespace ScopeTable.Twins

theorem mono {Q : String → Prop} (h : ScopeTable.Twins P g g' t t') (hQ : ∀ name, Q name → P name) :
    ScopeTable.Twins Q g g' t t' :=
  ⟨h.flat, h.flat', h.bare, fun name hname ↦ h.under name (hQ name hname)⟩

theorem get?_eq (h : ScopeTable.Twins P g g' t t') (name : String) :
    g.get? name = g'.get? name := by
  change g.bare.get? name = g'.bare.get? name
  rw [h.bare]

/-- Under a name that counts, either both tables have a scope and the two show the same, or neither
has one. -/
theorem child_cases (h : ScopeTable.Twins P g g' t t') {name : String} (hname : P name) :
    (∃ id id', g.children[name]? = some id ∧ g'.children[name]? = some id' ∧ t.Mirrors id t' id') ∨
      g.children[name]? = none ∧ g'.children[name]? = none := by
  have hunder := h.under name hname
  rw [h.flat.under_eq, h.flat'.under_eq] at hunder
  cases hchild : g.children[name]? with
  | none =>
    cases hchild' : g'.children[name]? with
    | none => exact .inr ⟨rfl, rfl⟩
    | some id' =>
      obtain ⟨s', hinside'⟩ := h.flat'.inside hchild'
      rw [hchild, hchild', Option.bind_some, hinside'.inner] at hunder
      cases hunder
  | some id =>
    obtain ⟨s, hinside⟩ := h.flat.inside hchild
    cases hchild' : g'.children[name]? with
    | none =>
      rw [hchild, hchild', Option.bind_some, hinside.inner] at hunder
      cases hunder
    | some id' =>
      obtain ⟨s', hinside'⟩ := h.flat'.inside hchild'
      rw [hchild, hchild', Option.bind_some, Option.bind_some, hinside.inner, hinside'.inner]
        at hunder
      cases hunder
      exact .inl ⟨id, id', rfl, rfl, s, g, g', hinside, hinside', h.get?_eq⟩

/-- Walks through the scopes of one name that tell alike events wherever the scopes show the same
leave twins. -/
theorem within {name : String} {walk walk' : ScopeId → Walk} (h : ScopeTable.Twins P g g' t t')
    (hname : P name) (hwalk : ∀ id, id ≠ globalId → (walk id).StaysIn t id)
    (hwalk' : ∀ id, id ≠ globalId → (walk' id).StaysIn t' id)
    (halike : ∀ id id', t.Mirrors id t' id' → (walk id).Alike R (walk' id') ∧
      (walk id).scopes.Mirrors id (walk' id').scopes id') :
    (t.within name walk).Twins R P g g' (t'.within name walk') := by
  have hflat : (t.within name walk).scopes.Flat g := h.flat.within hwalk
  have hflat' : (t'.within name walk').scopes.Flat g' := h.flat'.within hwalk'
  have hothers : ∀ other, P other → other ≠ name →
      (t.within name walk).scopes.under other = (t'.within name walk').scopes.under other := by
    intro other hother hne
    rw [h.flat.under_within hwalk hne, h.flat'.under_within hwalk' hne, h.under other hother]
  rcases h.child_cases hname with ⟨id, id', hchild, hchild', hmirrors⟩ | ⟨hchild, hchild'⟩
  · obtain ⟨halike, hafter⟩ := halike id id' hmirrors
    have hscopes : (t.within name walk).scopes = (walk id).scopes := by
      rw [ScopeTable.within, h.flat.childNamed?, hchild]
    have hscopes' : (t'.within name walk').scopes = (walk' id').scopes := by
      rw [ScopeTable.within, h.flat'.childNamed?, hchild']
    refine ⟨⟨?_, ?_⟩, hflat, hflat', h.bare, ?_⟩
    · rw [ScopeTable.within, ScopeTable.within, h.flat.childNamed?, h.flat'.childNamed?, hchild,
        hchild']
      simp only [halike.fault]
      refine alike_append (.cons (.entered _ _ _ _) halike.events) ?_
      split
      · exact .cons (.left _ _ _ _) .nil
      · exact .nil
    · rw [ScopeTable.within, ScopeTable.within, h.flat.childNamed?, h.flat'.childNamed?, hchild,
        hchild']
      exact halike.fault
    · intro other hother
      by_cases hne : other = name
      · rw [hne, hflat.under_eq, hflat'.under_eq, hchild, hchild', hscopes, hscopes']
        exact hafter.scope?_eq
      · exact hothers other hother hne
  · have hwithin : t.within name walk = ⟨t, [], some (.missingScope name globalName)⟩ := by
      rw [ScopeTable.within, h.flat.childNamed?, hchild]
    have hwithin' : t'.within name walk' = ⟨t', [], some (.missingScope name globalName)⟩ := by
      rw [ScopeTable.within, h.flat'.childNamed?, hchild']
    rw [hwithin, hwithin']
    exact ⟨⟨.nil, rfl⟩, h⟩

end ScopeTable.Twins

section

variable {seen : List String} {shadowed : Bool}

theorem FuncDef.check_eq (f : FuncDef Tag) : f.check t seen shadowed =
    if shadowed then ⟨t, f.reports seen ++ [.skipped f.name f.note.line], none⟩
    else ⟨(t.within f.name (f.checkBody t ·)).scopes,
      f.reports seen ++ (t.within f.name (f.checkBody t ·)).events,
      (t.within f.name (f.checkBody t ·)).fault⟩ := rfl

theorem FuncDef.checkBody_staysIn (f : FuncDef Tag) (id : ScopeId) (hne : id ≠ globalId) :
    (f.checkBody t id).StaysIn t id := Body.check_staysIn hne _ _ f.body

theorem FuncDef.flat_check (h : t.Flat g) (f : FuncDef Tag) :
    (f.check t seen shadowed).scopes.Flat g := by
  cases shadowed with
  | true => exact h
  | false => exact h.within f.checkBody_staysIn

theorem FuncDef.under_check (h : t.Flat g) (f : FuncDef Tag) {name : String} (hne : name ≠ f.name) :
    (f.check t seen shadowed).scopes.under name = t.under name := by
  cases shadowed with
  | true => rfl
  | false => exact h.under_within f.checkBody_staysIn hne

theorem FuncDef.check_twins (h : ScopeTable.Twins P g g' t t') (p : FuncDef (Tag × Tag))
    (hp : Linked (SameWords R) (p.walk fun _ ↦ false)) (hname : shadowed = false → P p.name) :
    ((p.map Prod.fst).check t seen shadowed).Twins R P g g'
      ((p.map Prod.snd).check t' seen shadowed) := by
  have hnote : R p.note.1 p.note.2 := (linked_visit.1 hp).1.1
  have hreports : List.Forall₂ (Event.Alike R) ((p.map Prod.fst).reports seen)
      ((p.map Prod.snd).reports seen) :=
    (p.map Prod.fst).alike_reports (p.map Prod.snd) hnote rfl p.params
      (FuncDef.params_of_linked hp) rfl rfl seen
  rw [FuncDef.check_eq, FuncDef.check_eq]
  cases shadowed with
  | true => exact ⟨⟨alike_append hreports (.cons (.skipped hnote _) .nil), rfl⟩, h⟩
  | false =>
    have inner := h.within (hname rfl) (p.map Prod.fst).checkBody_staysIn
      (p.map Prod.snd).checkBody_staysIn fun id id' hmirrors ↦ p.checkBody_alike hmirrors hp
    exact ⟨⟨alike_append hreports inner.events, inner.fault⟩, inner.scopes⟩

theorem FuncDef.any_name_map {α β : Type} (f : α → β) (ps : List (FuncDef α)) (name : String) :
    (ps.map (FuncDef.map f)).any (·.name = name) = ps.any (·.name = name) := by
  rw [List.any_map]
  rfl

theorem FuncDef.checkAll_twins (h : ScopeTable.Twins P g g' t t') (ps : List (FuncDef (Tag × Tag)))
    (hps : ∀ p ∈ ps, Linked (SameWords R) (p.walk fun _ ↦ false)) (hnames : ∀ p ∈ ps, P p.name) :
    (FuncDef.checkAll t seen (ps.map (FuncDef.map Prod.fst))).Twins R P g g'
      (FuncDef.checkAll t' seen (ps.map (FuncDef.map Prod.snd))) := by
  induction ps generalizing t t' seen with
  | nil => exact ⟨⟨.nil, rfl⟩, h⟩
  | cons p ps ih =>
    obtain ⟨hp, hothers⟩ := List.forall_mem_cons.1 hps
    obtain ⟨hname, hnames⟩ := List.forall_mem_cons.1 hnames
    rw [List.map_cons, List.map_cons, FuncDef.checkAll, FuncDef.checkAll, FuncDef.any_name_map,
      FuncDef.any_name_map]
    exact (p.check_twins h hp fun _ ↦ hname).andThen fun hscopes ↦ ih hscopes hothers hnames

end

theorem Body.checkMain_twins (h : ScopeTable.Twins P g g' t t') (p : Body (Tag × Tag))
    (hp : Linked (SameWords R) (p.walkParts fun _ ↦ false)) (hname : P mainName) :
    ((p.map Prod.fst).checkMain t).Twins R P g g' ((p.map Prod.snd).checkMain t') := by
  apply h.within hname
  · exact fun id hne ↦ Body.check_staysIn hne [] [] _
  · exact fun id hne ↦ Body.check_staysIn hne [] [] _
  · exact fun id id' hmirrors ↦ p.check_alike hmirrors hp .nil .nil

/-- Programs of one shape, walked in twins, tell alike events and leave twins. -/
theorem Script.check_twins (h : ScopeTable.Twins (fun _ ↦ True) g g' t t')
    (p : Script (Tag × Tag)) (hp : Linked (SameWords R) (p.walk fun _ ↦ false)) :
    ((p.map Prod.fst).check t).Twins R (fun _ ↦ True) g g' ((p.map Prod.snd).check t') := by
  obtain ⟨note, funcs, main⟩ := p
  obtain ⟨hfuncs, hmain⟩ := linked_append.1 (linked_visit.1 hp).2
  apply (FuncDef.checkAll_twins h funcs (linked_flatMap.1 hfuncs) fun _ _ ↦ trivial).andThen
  intro hscopes
  cases main with
  | none => exact ⟨⟨.nil, rfl⟩, hscopes⟩
  | some b =>
    exact b.checkMain_twins hscopes (linked_visit.1 (linked_flatMap.1 hmain b (by simp))).2 trivial

theorem ScopeTable.Flat.map_under (h : t.Flat g) (name : String) :
    g.children[name]?.map (fun _ ↦ t.under name) = (t.under name).map some := by
  rw [h.under_eq]
  cases hchild : g.children[name]? with
  | none => rfl
  | some id =>
    obtain ⟨s, hinside⟩ := h.inside hchild
    simp [hinside.inner]

/-- The outline of a flat table shows the global scope and then, by name, the scopes inside it. -/
theorem ScopeTable.Flat.outline_eq (h : t.Flat g) :
    t.outline globalId = g.outline 0 ++ String.join
      ((g.children.map fun name _ ↦ t.under name).toList.map fun child ↦
        (child.2.map (Scope.outline 1)).getD "") := by
  obtain ⟨levels, hsize⟩ : ∃ levels, t.size = levels + 1 :=
    Nat.exists_eq_add_of_lt (ScopeTable.size_pos h.outer) |>.imp fun _ ↦ by omega
  rw [ScopeTable.outline, hsize, ScopeTable.outlineUpTo, h.outer]
  simp only [Scope.childIds, Std.ExtTreeMap.toList_map, List.map_map]
  congr 2
  apply List.map_congr_left
  intro child hmem
  have hchild : g.children[child.1]? = some child.2 :=
    Std.ExtTreeMap.mem_toList_iff_getElem?_eq_some.1 hmem
  obtain ⟨s, hscope, -, -, hempty⟩ := h.inner child.1 child.2 hchild
  obtain ⟨_, hinside⟩ := h.inside hchild
  have hlt : child.2 < t.size := (List.getElem?_eq_some_iff.1 hscope).1
  obtain ⟨below, hbelow⟩ : ∃ below, t.size = below + 2 :=
    Nat.exists_eq_add_of_le' (Nat.lt_of_le_of_lt (Nat.pos_of_ne_zero hinside.ne) hlt)
  have hlevels : levels = below + 1 := Nat.succ.inj (hsize.symm.trans hbelow)
  have hnone : s.childIds = [] := by
    rw [Scope.childIds, hempty, Std.ExtTreeMap.toList_eq_nil_iff.2 rfl, List.map_nil]
  simp only [Function.comp_apply, h.under_eq, hchild, Option.bind_some, hscope, hlevels,
    ScopeTable.outlineUpTo, Option.map_some, Option.getD_some, hnone]
  exact String.append_empty

theorem ScopeTable.Twins.outline_eq (h : ScopeTable.Twins (fun _ ↦ True) g g' t t') :
    t.outline globalId = t'.outline globalId := by
  have hchildren : (g.children.map fun name _ ↦ t.under name) =
      g'.children.map fun name _ ↦ t'.under name := by
    apply Std.ExtTreeMap.ext_getElem?
    intro name
    rw [Std.ExtTreeMap.getElem?_map, Std.ExtTreeMap.getElem?_map, h.flat.map_under,
      h.flat'.map_under, h.under name trivial]
  rw [h.flat.outline_eq, h.flat'.outline_eq, hchildren]
  congr 1
  change g.bare.outline 0 = g'.bare.outline 0
  rw [h.bare]

end ScriptAnalysis
