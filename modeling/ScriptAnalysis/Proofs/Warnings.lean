import ScriptAnalysis.Proofs.Walks

/-!
# Where the warnings of a program come from

Warnings arise in bodies only, and only in those that are walked: the body of each definition that
is the last of its name, and the main part. So what is picked of the warnings of a program can be
put together from what is picked in each body, in the order of the program.
-/

namespace ScriptAnalysis

open ScopeTable (globalId)

/-- The definitions that are the last of their name. -/
def FuncDef.lasts : List (FuncDef Tag) → List (FuncDef Tag)
  | [] => []
  | f :: fs => if f.name ∈ fs.map FuncDef.name then FuncDef.lasts fs else f :: FuncDef.lasts fs

theorem warning?_verdict (node : Tag) (violation : Option Violation) :
    ∀ event ∈ verdict node violation, event.warning? = none := by
  cases violation with
  | none => simp [verdict]
  | some violation => simp [verdict, Event.warning?]

theorem Param.warning?_duplicates (function : String) (seen : List String)
    (ps : List (Param Tag)) :
    ∀ event ∈ Param.duplicates function seen ps, event.warning? = none := by
  induction ps generalizing seen with
  | nil => simp [Param.duplicates]
  | cons p ps ih => exact List.forall_mem_append.2 ⟨warning?_verdict _ _, ih _⟩

/-- What is reported of a header comes with no warning. -/
theorem FuncDef.warning?_reports (f : FuncDef Tag) (seen : List String) :
    ∀ event ∈ f.reports seen, event.warning? = none :=
  List.forall_mem_append.2 ⟨warning?_verdict _ _, Param.warning?_duplicates _ _ _⟩

variable {β : Type} {pick : Event → Option β}

theorem Pass.filterMap_around (hpick : ∀ event, event.warning? = none → pick event = none)
    (pass : Pass) (name : String) (id : ScopeId) (events : List Event) :
    (pass.around name id events).filterMap pick = events.filterMap pick := by
  unfold Pass.around
  rw [List.cons_append, List.filterMap_cons_none (hpick _ rfl), List.filterMap_append,
    List.filterMap_cons_none (hpick _ rfl), List.filterMap_nil, List.append_nil]

/-- Whether a relation between lists goes over from parts to the lists put together. -/
structure Joins (R : List β → List β → Prop) : Prop where
  nil : R [] []
  append : ∀ {xs ys xs' ys'}, R xs ys → R xs' ys' → R (xs ++ xs') (ys ++ ys')

theorem joins_eq : Joins (@Eq (List β)) where
  nil := rfl
  append h h' := by rw [h, h']

theorem joins_perm : Joins (@List.Perm β) where
  nil := .nil
  append h h' := h.append h'

variable {R : List β → List β → Prop}

/-- What is picked of the warnings of a walk over definitions is related to what belongs to the last
of each name, if what is picked in their bodies is. -/
theorem FuncDef.Run.related_events {g : Scope} {t t' : ScopeTable} {seen : List String}
    {next : ScopeId} {fs : List (FuncDef Tag)} {events : List Event} {found : FuncDef Tag → List β}
    (h : FuncDef.Run g t seen next fs t' events) (hR : Joins R)
    (hpick : ∀ event, event.warning? = none → pick event = none)
    (hfound : ∀ i f u, LastAt FuncDef.name fs i f → u.scope? globalId = some g →
      u.scope? (next + i) = some f.ownScope → (f.checkBody u (next + i)).events <:+: events →
      t'.scope? (next + i) = (f.checkBody u (next + i)).scopes.scope? (next + i) →
      R ((f.checkBody u (next + i)).events.filterMap pick) (found f)) :
    R (events.filterMap pick) ((FuncDef.lasts fs).flatMap found) := by
  have hshift (next i : Nat) : next + 1 + i = next + (i + 1) := Nat.add_right_comm next 1 i
  have hreports (f : FuncDef Tag) (seen : List String) : (f.reports seen).filterMap pick = [] :=
    List.filterMap_eq_nil_iff.2 fun event hevent ↦
      hpick event (f.warning?_reports seen event hevent)
  induction h with
  | nil => exact hR.nil
  | @shadowed t t' seen next f fs events hname later ih =>
    rw [List.filterMap_append, List.filterMap_append, hreports,
      List.filterMap_cons_none (hpick _ rfl), FuncDef.lasts, if_pos hname]
    apply ih
    intro i f' u hf'
    rw [hshift]
    intro hg hown hevents
    exact hfound (i + 1) f' u (lastAt_succ.2 hf') hg hown
      (hevents.trans (List.suffix_append _ _).isInfix)
  | @last t t' seen next f fs events hname hg hown later ih =>
    rw [List.filterMap_append, List.filterMap_append, hreports, Pass.filterMap_around hpick,
      FuncDef.lasts, if_neg hname, List.flatMap_cons, List.nil_append]
    apply hR.append
    · refine hfound 0 f t (lastAt_zero.2 ⟨rfl, hname⟩) hg hown ?_
        (later.scope?_eq (.inl (Nat.lt_succ_self next)))
      exact (Pass.infix_around .inferring f.name next _).trans ⟨f.reports seen, events, rfl⟩
    · apply ih
      intro i f' u hf'
      rw [hshift]
      intro hg hown hevents
      exact hfound (i + 1) f' u (lastAt_succ.2 hf') hg hown
        (hevents.trans (List.suffix_append _ _).isInfix)

/-- What is picked of the warnings of a program is related to what belongs to the bodies that are
walked, if what is picked in each of them is. -/
theorem Script.Tour.related_events {s : Script Tag} {b : Body Tag} {mid : ScopeTable}
    {events : List Event} {found : FuncDef Tag → List β} {foundMain : List β}
    (h : s.Tour b mid events) (hR : Joins R)
    (hpick : ∀ event, event.warning? = none → pick event = none)
    (hfuncs : ∀ i f u, LastAt FuncDef.name s.funcs i f → u.Inside (1 + i) s.globalScope f.ownScope →
      (f.checkBody u (1 + i)).events <:+: (Node.script s).secondWalk.events →
      (Node.script s).secondWalk.scopes.scope? (1 + i) =
        (f.checkBody u (1 + i)).scopes.scope? (1 + i) →
      R ((f.checkBody u (1 + i)).events.filterMap pick) (found f))
    (hmain : mid.Inside (1 + s.funcs.length) s.globalScope mainScope →
      (b.check mid (1 + s.funcs.length) [] []).events <:+: (Node.script s).secondWalk.events →
      R ((b.check mid (1 + s.funcs.length) [] []).events.filterMap pick) foundMain) :
    R ((Node.script s).secondWalk.events.filterMap pick)
      ((FuncDef.lasts s.funcs).flatMap found ++ foundMain) := by
  rw [h.check] at hfuncs hmain ⊢
  rw [List.filterMap_append, Pass.filterMap_around hpick]
  apply hR.append
  · apply h.run.related_events hR hpick
    intro i f u hf hg hown hevents hscope
    have hlt : i < s.funcs.length := (List.getElem?_eq_some_iff.1 hf.get).1
    have hne : 1 + i ≠ 1 + s.funcs.length := by omega
    exact hfuncs i f u hf
      ⟨one_add_ne_globalId i, hown, Param.parent_openScope _ _ _, hg, s.parent_globalScope⟩
      (hevents.trans (List.prefix_append _ _).isInfix) ((Body.scope?_check_ne hne).trans hscope)
  · exact hmain ⟨one_add_ne_globalId _, h.own, rfl, h.outer, s.parent_globalScope⟩
      ((Pass.infix_around _ _ _ _).trans (List.suffix_append _ _).isInfix)

/-- What is picked of the warnings of a program is what is picked of those in the bodies that are
walked. -/
theorem Script.Tour.filterMap_events {s : Script Tag} {b : Body Tag} {mid : ScopeTable}
    {events : List Event} {found : FuncDef Tag → List β} {foundMain : List β}
    (h : s.Tour b mid events) (hpick : ∀ event, event.warning? = none → pick event = none)
    (hfuncs : ∀ i f u, LastAt FuncDef.name s.funcs i f → u.Inside (1 + i) s.globalScope f.ownScope →
      (f.checkBody u (1 + i)).events <:+: (Node.script s).secondWalk.events →
      (Node.script s).secondWalk.scopes.scope? (1 + i) =
        (f.checkBody u (1 + i)).scopes.scope? (1 + i) →
      (f.checkBody u (1 + i)).events.filterMap pick = found f)
    (hmain : mid.Inside (1 + s.funcs.length) s.globalScope mainScope →
      (b.check mid (1 + s.funcs.length) [] []).events <:+: (Node.script s).secondWalk.events →
      (b.check mid (1 + s.funcs.length) [] []).events.filterMap pick = foundMain) :
    (Node.script s).secondWalk.events.filterMap pick =
      (FuncDef.lasts s.funcs).flatMap found ++ foundMain :=
  h.related_events joins_eq hpick hfuncs hmain

end ScriptAnalysis
