import ScriptAnalysis.Proofs.Pairing
import ScriptAnalysis.Proofs.Walks
import Mathlib.Data.List.Forall2

/-!
# Walks side by side

The second walk over a body asks little of what surrounds it: what its scope and the global scope
bind, and of the notes of its nodes only the words of the conditions. Two bodies of one shape, each
walked in its own table, therefore tell the same events, each about the node in the same place. The
two are followed along one tree of pairs.
-/

namespace ScriptAnalysis

open ScopeTable (globalId)

/-- Whether two events say the same of related nodes. The scopes that are entered and left are
compared by their names only. -/
inductive Event.Alike (R : Tag → Tag → Prop) : Event → Event → Prop
  | entered (pass : Pass) (name : String) (scope scope' : ScopeId) :
    Alike R (.entered pass name scope) (.entered pass name scope')
  | left (pass : Pass) (name : String) (scope scope' : ScopeId) :
    Alike R (.left pass name scope) (.left pass name scope')
  | typed {node node' : Tag} (h : R node node') (type : Ty) :
    Alike R (.typed node type) (.typed node' type)
  | read (name : String) : Alike R (.read name) (.read name)
  | reported {node node' : Tag} (h : R node node') (violation : Violation) :
    Alike R (.reported node violation) (.reported node' violation)
  | warned {node node' : Tag} (h : R node node') (caution : Caution) :
    Alike R (.warned node.span caution) (.warned node'.span caution)
  | skipped {node node' : Tag} (h : R node node') (function : String) :
    Alike R (.skipped function node.line) (.skipped function node'.line)

/-- Related nodes that were also read from the same words. -/
def SameWords (R : Tag → Tag → Prop) (a b : Tag) : Prop := R a b ∧ a.text = b.text

variable {R : Tag → Tag → Prop} {node node' : Tag} {events events' later later' : List Event}

theorem Event.Alike.mono {R' : Tag → Tag → Prop} (hR : ∀ a b, R a b → R' a b)
    {event event' : Event} (h : event.Alike R event') : event.Alike R' event' := by
  cases h with
  | entered pass name scope scope' => exact .entered pass name scope scope'
  | left pass name scope scope' => exact .left pass name scope scope'
  | typed h type => exact .typed (hR _ _ h) type
  | read name => exact .read name
  | reported h violation => exact .reported (hR _ _ h) violation
  | warned h caution => exact .warned (hR _ _ h) caution
  | skipped h function => exact .skipped (hR _ _ h) function

theorem alike_append (h : List.Forall₂ (Event.Alike R) events events')
    (hlater : List.Forall₂ (Event.Alike R) later later') :
    List.Forall₂ (Event.Alike R) (events ++ later) (events' ++ later') := List.rel_append h hlater

theorem alike_verdict (h : R node node') (violation : Option Violation) :
    List.Forall₂ (Event.Alike R) (verdict node violation) (verdict node' violation) := by
  cases violation with
  | none => exact .nil
  | some violation => exact .cons (.reported h violation) .nil

theorem any_reads_of_alike (h : List.Forall₂ (Event.Alike R) events events') (name : String) :
    events.any (Event.reads name) = events'.any (Event.reads name) := by
  induction h with
  | nil => rfl
  | cons h _ ih =>
    rw [List.any_cons, List.any_cons, ih]
    cases h <;> rfl

structure Inference.Alike (R : Tag → Tag → Prop) (found found' : Inference) : Prop where
  type : found.type = found'.type
  events : List.Forall₂ (Event.Alike R) found.events found'.events

theorem Inference.alike_conclude (h : R node node')
    (hevents : List.Forall₂ (Event.Alike R) events events') (outcome : Except Violation Ty) :
    (Inference.conclude node events outcome).Alike R
      (Inference.conclude node' events' outcome) := by
  cases outcome with
  | ok type => exact ⟨rfl, alike_append hevents (.cons (.typed h type) .nil)⟩
  | error violation =>
    exact ⟨rfl, alike_append hevents (.cons (.reported h violation) (.cons (.typed h .error) .nil))⟩

section

variable (env : Env)

mutual

theorem Expr.infer_alike (p : Expr (Tag × Tag)) (h : Linked R (p.walk fun _ ↦ false)) :
    ((p.map Prod.fst).infer env).Alike R ((p.map Prod.snd).infer env) := by
  match p with
  | .int note digits | .string note lexeme | .bool note value =>
    exact Inference.alike_conclude (linked_visit.1 h).1 .nil _
  | .ident note name =>
    have hnote : R note.1 note.2 := (linked_visit.1 h).1
    simp only [Expr.map, Expr.infer]
    cases env.usable? name with
    | none => exact Inference.alike_conclude hnote .nil _
    | some type => exact Inference.alike_conclude hnote (.cons (.read name) .nil) _
  | .negate note op operand =>
    obtain ⟨hnote, hoperand⟩ := linked_visit.1 h
    have inner := operand.infer_alike hoperand
    simp only [Expr.map, Expr.infer, inner.type]
    exact Inference.alike_conclude hnote inner.events _
  | .parens note inner =>
    obtain ⟨hnote, hinner⟩ := linked_visit.1 h
    have inner := inner.infer_alike hinner
    simp only [Expr.map, Expr.infer, inner.type]
    exact Inference.alike_conclude hnote inner.events _
  | .binary note op left right =>
    obtain ⟨hnote, hoperands⟩ := linked_visit.1 h
    have left := left.infer_alike (linked_append.1 hoperands).1
    have right := right.infer_alike (linked_append.1 hoperands).2
    simp only [Expr.map, Expr.infer, left.type, right.type]
    exact Inference.alike_conclude hnote (alike_append left.events right.events) _
  | .call note callee args =>
    obtain ⟨hnote, hargs⟩ := linked_visit.1 h
    obtain ⟨htypes, hevents⟩ := Expr.inferAll_alike args hargs
    simp only [Expr.map, Expr.infer, htypes]
    exact Inference.alike_conclude hnote hevents _

theorem Expr.inferAll_alike (ps : List (Expr (Tag × Tag)))
    (h : Linked R (Expr.walkAll (fun _ ↦ false) ps)) :
    (Expr.inferAll env (Expr.mapAll Prod.fst ps)).1 =
        (Expr.inferAll env (Expr.mapAll Prod.snd ps)).1 ∧
      List.Forall₂ (Event.Alike R) (Expr.inferAll env (Expr.mapAll Prod.fst ps)).2
        (Expr.inferAll env (Expr.mapAll Prod.snd ps)).2 := by
  match ps with
  | [] => exact ⟨rfl, .nil⟩
  | p :: ps =>
    have first := p.infer_alike (linked_append.1 h).1
    obtain ⟨htypes, hevents⟩ := Expr.inferAll_alike ps (linked_append.1 h).2
    simp only [Expr.mapAll, Expr.inferAll, first.type, htypes, true_and]
    exact alike_append first.events hevents

end

end

theorem Stmt.isReturn_map {α β : Type} (f : α → β) (s : Stmt α) :
    (s.map f).isReturn = s.isReturn := by
  match s with
  | .assign .. | .loop .. | .print .. | .call .. => rfl
  | .branch _ _ _ none | .branch _ _ _ (some _) => rfl
  | .ret _ none | .ret _ (some _) => rfl

theorem Block.any_isReturn_map {α β : Type} (f : α → β) (b : Block α) :
    (b.map f).stmts.any Stmt.isReturn = b.stmts.any Stmt.isReturn := by
  obtain ⟨note, stmts⟩ := b
  change (Stmt.mapAll f stmts).any Stmt.isReturn = stmts.any Stmt.isReturn
  induction stmts with
  | nil => rfl
  | cons s stmts ih => rw [Stmt.mapAll, List.any_cons, List.any_cons, s.isReturn_map, ih]

theorem Stmt.note_of_linked {s : Stmt (Tag × Tag)} (h : Linked R (s.walk fun _ ↦ false)) :
    R s.note.1 s.note.2 := by
  match s with
  | .assign .. | .loop .. | .print .. | .call .. => exact (linked_visit.1 h).1
  | .branch _ _ _ none | .branch _ _ _ (some _) => exact (linked_visit.1 h).1
  | .ret _ none | .ret _ (some _) => exact (linked_visit.1 h).1

theorem Expr.note_of_linked {e : Expr (Tag × Tag)} (h : Linked R (e.walk fun _ ↦ false)) :
    R e.note.1 e.note.2 := by
  cases e <;> exact (linked_visit.1 h).1

theorem Flow.alike_warning (h : R node node') (flow : Flow) :
    List.Forall₂ (Event.Alike R) (flow.warning node) (flow.warning node') := by
  unfold Flow.warning
  split
  · exact .cons (.warned h .unreachable) .nil
  · exact .nil

theorem Linked.nodes {nodes : List (Node (Tag × Tag))} (h : Linked (SameWords R) nodes) :
    Linked R nodes := h.mono fun _ _ ↦ And.left

section

variable (setting : Setting)

mutual

theorem Stmt.check_alike (p : Stmt (Tag × Tag)) (h : Linked (SameWords R) (p.walk fun _ ↦ false)) :
    List.Forall₂ (Event.Alike R) ((p.map Prod.fst).check setting)
      ((p.map Prod.snd).check setting) := by
  match p with
  | .assign note target value =>
    obtain ⟨hnote, hvalue⟩ := linked_visit.1 h
    have value := value.infer_alike setting.env hvalue.nodes
    simp only [Stmt.map, Stmt.check, value.type]
    exact alike_append value.events (alike_verdict hnote.1 _)
  | .loop note condition body =>
    obtain ⟨hnote, hparts⟩ := linked_visit.1 h
    obtain ⟨hcondition, hbody⟩ := linked_append.1 hparts
    have found := condition.infer_alike setting.env hcondition.nodes
    have htext : condition.note.1.text = condition.note.2.text :=
      (Expr.note_of_linked hcondition).2
    simp only [Stmt.map, Stmt.check, found.type, Expr.note_map, htext]
    exact alike_append (alike_append found.events (body.check_alike .live hbody))
      (alike_verdict hnote.1 _)
  | .branch note condition whenTrue none =>
    obtain ⟨hnote, hparts⟩ := linked_visit.1 h
    obtain ⟨hcondition, htrue⟩ := linked_append.1 hparts
    have found := condition.infer_alike setting.env hcondition.nodes
    have htext : condition.note.1.text = condition.note.2.text :=
      (Expr.note_of_linked hcondition).2
    simp only [Stmt.map, Stmt.check, found.type, Expr.note_map, htext]
    exact alike_append (alike_append found.events (whenTrue.check_alike .live htrue))
      (alike_verdict hnote.1 _)
  | .branch note condition whenTrue (some whenFalse) =>
    obtain ⟨hnote, hparts⟩ := linked_visit.1 h
    obtain ⟨hfirst, hfalse⟩ := linked_append.1 hparts
    obtain ⟨hcondition, htrue⟩ := linked_append.1 hfirst
    have found := condition.infer_alike setting.env hcondition.nodes
    have htext : condition.note.1.text = condition.note.2.text :=
      (Expr.note_of_linked hcondition).2
    simp only [Stmt.map, Stmt.check, found.type, Expr.note_map, htext]
    exact alike_append (alike_append (alike_append found.events
      (whenTrue.check_alike .live htrue)) (whenFalse.check_alike .live hfalse))
      (alike_verdict hnote.1 _)
  | .print note value =>
    obtain ⟨hnote, hvalue⟩ := linked_visit.1 h
    have value := value.infer_alike setting.env hvalue.nodes
    simp only [Stmt.map, Stmt.check, value.type]
    exact alike_append value.events (alike_verdict hnote.1 _)
  | .ret note none => exact alike_verdict (linked_visit.1 h).1.1 _
  | .ret note (some value) =>
    obtain ⟨hnote, hvalue⟩ := linked_visit.1 h
    have value := value.infer_alike setting.env hvalue.nodes
    simp only [Stmt.map, Stmt.check, value.type]
    exact alike_append value.events (alike_verdict hnote.1 _)
  | .call note callNote callee args =>
    obtain ⟨-, hcall⟩ := linked_visit.1 h
    exact ((Expr.call callNote callee args).infer_alike setting.env hcall.nodes).events

theorem Block.check_alike (flow : Flow) (p : Block (Tag × Tag))
    (h : Linked (SameWords R) (p.walk fun _ ↦ false)) :
    List.Forall₂ (Event.Alike R) ((p.map Prod.fst).check setting flow)
      ((p.map Prod.snd).check setting flow) := by
  match p with
  | .mk note stmts => exact Stmt.checkAll_alike flow stmts (linked_visit.1 h).2

theorem Stmt.checkAll_alike (flow : Flow) (ps : List (Stmt (Tag × Tag)))
    (h : Linked (SameWords R) (Stmt.walkAll (fun _ ↦ false) ps)) :
    List.Forall₂ (Event.Alike R) (Stmt.checkAll setting flow (Stmt.mapAll Prod.fst ps))
      (Stmt.checkAll setting flow (Stmt.mapAll Prod.snd ps)) := by
  match ps with
  | [] => exact .nil
  | p :: ps =>
    obtain ⟨hfirst, hothers⟩ := linked_append.1 h
    simp only [Stmt.mapAll, Stmt.checkAll, Stmt.note_map, Stmt.isReturn_map]
    exact alike_append (alike_append (flow.alike_warning (Stmt.note_of_linked hfirst).1)
      (p.check_alike hfirst)) (Stmt.checkAll_alike (flow.after p.isReturn) ps hothers)

end

end

/-! ## Tables that show a body the same -/

/-- Whether two scopes, each in its table, show the same: the scope itself is the same, and it lies
right inside global scopes that bind the same names to the same symbols. -/
def ScopeTable.Mirrors (t : ScopeTable) (id : ScopeId) (t' : ScopeTable) (id' : ScopeId) : Prop :=
  ∃ s g g', t.Inside id g s ∧ t'.Inside id' g' s ∧ ∀ name, g.get? name = g'.get? name

namespace ScopeTable.Mirrors

variable {t t' : ScopeTable} {id id' : ScopeId}

theorem resolve?_eq (h : t.Mirrors id t' id') : t.resolve? id = t'.resolve? id' := by
  obtain ⟨s, g, g', hinside, hinside', hg⟩ := h
  funext name
  rw [hinside.resolve?, hinside'.resolve?, hg]

theorem env_eq (h : t.Mirrors id t' id') : t.env id = t'.env id' := by
  unfold ScopeTable.env
  rw [h.resolve?_eq]

theorem scope?_eq (h : t.Mirrors id t' id') : t.scope? id = t'.scope? id' := by
  obtain ⟨s, g, g', hinside, hinside', -⟩ := h
  rw [hinside.inner, hinside'.inner]

theorem local?_eq (h : t.Mirrors id t' id') : t.local? id = t'.local? id' := by
  unfold ScopeTable.local?
  rw [h.scope?_eq]

theorem setting_eq (h : t.Mirrors id t' id') : t.setting id = t'.setting id' := by
  unfold ScopeTable.setting
  rw [h.scope?_eq, h.env_eq]

theorem define (h : t.Mirrors id t' id') (name : String) (type : Option Ty) :
    (t.define id name type).Mirrors id (t'.define id' name type) id' := by
  have hdefine : ∀ {t : ScopeTable} {id : ScopeId} {g s : Scope}, t.Inside id g s →
      (t.define id name type).Inside id g (s.define name type) := by
    intro t id g s hinside
    exact ⟨hinside.ne, ScopeTable.scope?_define_self hinside.inner _, hinside.parent,
      (ScopeTable.scope?_define_ne hinside.ne.symm _).trans hinside.outer, hinside.top⟩
  obtain ⟨s, g, g', hinside, hinside', hg⟩ := h
  exact ⟨s.define name type, g, g', hdefine hinside, hdefine hinside', hg⟩

end ScopeTable.Mirrors

/-- Whether two locals have one name and stand at related nodes. -/
def Local.Alike (R : Tag → Tag → Prop) (l l' : Local) : Prop :=
  l.name = l'.name ∧ ∃ node node', R node node' ∧ l.span = node.span ∧ l'.span = node'.span

structure Declared.Alike (R : Tag → Tag → Prop) (id id' : ScopeId) (d d' : Declared) : Prop where
  scopes : d.scopes.Mirrors id d'.scopes id'
  events : List.Forall₂ (Event.Alike R) d.events d'.events
  locals : List.Forall₂ (Local.Alike R) d.locals d'.locals

structure Walk.Alike (R : Tag → Tag → Prop) (w w' : Walk) : Prop where
  events : List.Forall₂ (Event.Alike R) w.events w'.events
  fault : w.fault = w'.fault

section

variable {t t' : ScopeTable} {id id' : ScopeId}

theorem VarDecl.check_of_bound {d : VarDecl Tag} (h : (t.resolve? id d.name).isSome = true) :
    d.check t id = ⟨t.define id d.name (some .error),
      ((d.init.map (Expr.infer (t.env id))).map (·.events)).getD [] ++
        [.reported d.note (.duplicateVariable d.name)], []⟩ := by
  unfold VarDecl.check
  simp only [h, if_true]

theorem VarDecl.check_alike (h : t.Mirrors id t' id') (p : VarDecl (Tag × Tag))
    (hp : Linked (SameWords R) (p.walk fun _ ↦ false)) :
    ((p.map Prod.fst).check t id).Alike R id id' ((p.map Prod.snd).check t' id') := by
  obtain ⟨note, name, type, init⟩ := p
  obtain ⟨hnote, hinit⟩ := linked_visit.1 hp
  have hlocal : Local.Alike R ⟨name, note.1.span⟩ ⟨name, note.2.span⟩ :=
    ⟨rfl, note.1, note.2, hnote.1, rfl, rfl⟩
  have hresolve : t.resolve? id name = t'.resolve? id' name := by rw [h.resolve?_eq]
  cases init with
  | none =>
    cases hbound : (t'.resolve? id' name).isSome with
    | true =>
      rw [VarDecl.check_of_bound (hresolve ▸ hbound), VarDecl.check_of_bound hbound]
      exact ⟨h.define _ _, .cons (.reported hnote.1 _) .nil, .nil⟩
    | false =>
      rw [VarDecl.check_of_init_eq_none (hresolve ▸ hbound) rfl,
        VarDecl.check_of_init_eq_none hbound rfl]
      exact ⟨h.define _ _, .nil, .cons hlocal .nil⟩
  | some e =>
    have found : ((e.map Prod.fst).infer (t'.env id')).Alike R ((e.map Prod.snd).infer _) :=
      e.infer_alike _ (linked_flatMap.1 hinit e (by simp)).nodes
    simp only [VarDecl.map, Option.map_some]
    cases hbound : (t'.resolve? id' name).isSome with
    | true =>
      rw [VarDecl.check_of_bound (hresolve ▸ hbound), VarDecl.check_of_bound hbound, h.env_eq]
      exact ⟨h.define _ _, alike_append found.events (.cons (.reported hnote.1 _) .nil), .nil⟩
    | false =>
      rw [VarDecl.check_of_init_eq_some (hresolve ▸ hbound) rfl,
        VarDecl.check_of_init_eq_some hbound rfl, h.env_eq, found.type]
      by_cases htype : ((e.map Prod.snd).infer (t'.env id')).type = .prim (Prim.declared type)
      · rw [if_pos htype, if_pos htype]
        exact ⟨h.define _ _, found.events, .cons hlocal .nil⟩
      · rw [if_neg htype, if_neg htype]
        exact ⟨h.define _ _, alike_append found.events
          (.cons (.typed hnote.1 _) (.cons (.reported hnote.1 _) .nil)), .nil⟩

theorem VarDecl.checkAll_alike (h : t.Mirrors id t' id') (ps : List (VarDecl (Tag × Tag)))
    (hps : Linked (SameWords R) (ps.flatMap fun p ↦ p.walk fun _ ↦ false)) :
    (VarDecl.checkAll t id (ps.map (VarDecl.map Prod.fst))).Alike R id id'
      (VarDecl.checkAll t' id' (ps.map (VarDecl.map Prod.snd))) := by
  induction ps generalizing t t' with
  | nil => exact ⟨h, .nil, .nil⟩
  | cons p ps ih =>
    obtain ⟨hp, hothers⟩ := linked_append.1 hps
    have first := p.check_alike h hp
    have others := ih first.scopes hothers
    exact ⟨others.scopes, alike_append first.events others.events,
      List.rel_append first.locals others.locals⟩

theorem Local.alike_warning {l l' : Local} (h : t.Mirrors id t' id') (hl : l.Alike R l') :
    List.Forall₂ (Event.Alike R) (l.warning t id) (l'.warning t' id') := by
  obtain ⟨hname, node, node', hnode, hspan, hspan'⟩ := hl
  unfold Local.warning
  rw [h.local?_eq, hname, hspan, hspan']
  simp only
  split
  · exact .nil
  · exact .cons (.warned hnode _) .nil

theorem closeLocals_alike {locals locals' : List Local} (h : t.Mirrors id t' id')
    (hevents : List.Forall₂ (Event.Alike R) events events')
    (hlocals : List.Forall₂ (Local.Alike R) locals locals') :
    (closeLocals t id events locals).Alike R (closeLocals t' id' events' locals') := by
  have hunread : List.Forall₂ (Local.Alike R)
      (locals.filter fun l ↦ !events.any (Event.reads l.name))
      (locals'.filter fun l ↦ !events'.any (Event.reads l.name)) := by
    apply List.rel_filter _ hlocals
    intro l l' hl
    simp only [hl.1, any_reads_of_alike hevents]
  have hempty : ∀ {unread unread' : List Local}, List.Forall₂ (Local.Alike R) unread unread' →
      unread.any (·.name = "") = unread'.any (·.name = "") := by
    intro unread unread' hunread
    induction hunread with
    | nil => rfl
    | cons hl _ ih => rw [List.any_cons, List.any_cons, hl.1, ih]
  unfold closeLocals
  simp only [hempty hunread]
  split
  · exact ⟨hevents, rfl⟩
  · have hwarnings := List.rel_flatMap hunread fun _ _ hl ↦ Local.alike_warning h hl
    exact ⟨alike_append hevents hwarnings, rfl⟩

theorem Body.check_alike {params params' : List Local} {closing closing' : List Event}
    (h : t.Mirrors id t' id') (p : Body (Tag × Tag))
    (hp : Linked (SameWords R) (p.walkParts fun _ ↦ false))
    (hparams : List.Forall₂ (Local.Alike R) params params')
    (hclosing : List.Forall₂ (Event.Alike R) closing closing') :
    ((p.map Prod.fst).check t id params closing).Alike R
        ((p.map Prod.snd).check t' id' params' closing') ∧
      ((p.map Prod.fst).check t id params closing).scopes.Mirrors id
        ((p.map Prod.snd).check t' id' params' closing').scopes id' := by
  obtain ⟨hvars, hblock⟩ := linked_append.1 hp
  have declared := VarDecl.checkAll_alike h p.vars.decls (linked_visit.1 hvars).2
  have hstmts := p.block.check_alike
    ((VarDecl.checkAll t' id' ((p.map Prod.snd).vars.decls)).scopes.setting id') .live hblock
  unfold Body.check
  rw [scopes_closeLocals, scopes_closeLocals]
  refine ⟨closeLocals_alike declared.scopes ?_ (List.rel_append hparams declared.locals),
    declared.scopes⟩
  rw [show (VarDecl.checkAll t id (p.map Prod.fst).vars.decls).scopes.setting id = _ from
    declared.scopes.setting_eq]
  exact alike_append (alike_append declared.events hstmts) hclosing

theorem Param.alike_duplicates (function : String) (seen : List String)
    (ps : List (Param (Tag × Tag))) (hps : ∀ p ∈ ps, R p.note.1 p.note.2) :
    List.Forall₂ (Event.Alike R) (Param.duplicates function seen (ps.map (Param.map Prod.fst)))
      (Param.duplicates function seen (ps.map (Param.map Prod.snd))) := by
  induction ps generalizing seen with
  | nil => exact .nil
  | cons p ps ih =>
    obtain ⟨hp, hothers⟩ := List.forall_mem_cons.1 hps
    exact alike_append (alike_verdict hp _) (ih (p.name :: seen) hothers)

theorem Param.alike_locals (h : t.Mirrors id t' id') (seen : List String)
    (ps : List (Param (Tag × Tag))) (hps : ∀ p ∈ ps, R p.note.1 p.note.2) :
    List.Forall₂ (Local.Alike R) (Param.locals t id seen (ps.map (Param.map Prod.fst)))
      (Param.locals t' id' seen (ps.map (Param.map Prod.snd))) := by
  induction ps generalizing seen with
  | nil => exact .nil
  | cons p ps ih =>
    obtain ⟨hp, hothers⟩ := List.forall_mem_cons.1 hps
    have hlater := ih (p.name :: seen) hothers
    simp only [List.map_cons, Param.locals, Param.map, h.local?_eq]
    split
    · exact .cons ⟨rfl, p.note.1, p.note.2, hp, rfl, rfl⟩ hlater
    · exact hlater

/-- What is reported of a definition before its body is walked does not hang on the body. -/
theorem FuncDef.alike_reports (f f' : FuncDef Tag) (hnote : R f.note f'.note)
    (hname : f.name = f'.name) (ps : List (Param (Tag × Tag))) (hps : ∀ p ∈ ps, R p.note.1 p.note.2)
    (hparams : ps.map (Param.map Prod.fst) = f.params)
    (hparams' : ps.map (Param.map Prod.snd) = f'.params) (seen : List String) :
    List.Forall₂ (Event.Alike R) (f.reports seen) (f'.reports seen) := by
  unfold FuncDef.reports
  rw [← hparams, ← hparams', hname]
  exact alike_append (alike_verdict hnote _) (Param.alike_duplicates f'.name [] ps hps)

theorem FuncDef.params_of_linked {p : FuncDef (Tag × Tag)}
    (hp : Linked (SameWords R) (p.walk fun _ ↦ false)) :
    ∀ q ∈ p.params, R q.note.1 q.note.2 := by
  obtain ⟨-, hparts⟩ := linked_visit.1 hp
  intro q hq
  exact (linked_visit.1 (linked_flatMap.1 (linked_append.1 hparts).1 q hq)).1.1

theorem FuncDef.alike_fallThrough (returns : Option Ty) (p : FuncDef (Tag × Tag))
    (hp : R p.note.1 p.note.2) :
    List.Forall₂ (Event.Alike R) ((p.map Prod.fst).fallThrough returns)
      ((p.map Prod.snd).fallThrough returns) := by
  simp only [FuncDef.fallThrough, FuncDef.map, Body.map, Block.any_isReturn_map]
  split
  · exact .nil
  · exact .cons (.warned hp _) .nil

theorem FuncDef.checkBody_alike (h : t.Mirrors id t' id') (p : FuncDef (Tag × Tag))
    (hp : Linked (SameWords R) (p.walk fun _ ↦ false)) :
    ((p.map Prod.fst).checkBody t id).Alike R ((p.map Prod.snd).checkBody t' id') ∧
      ((p.map Prod.fst).checkBody t id).scopes.Mirrors id
        ((p.map Prod.snd).checkBody t' id').scopes id' := by
  obtain ⟨hnote, hparts⟩ := linked_visit.1 hp
  apply Body.check_alike h p.body (linked_visit.1 (linked_append.1 hparts).2).2
  · exact Param.alike_locals h [] p.params (FuncDef.params_of_linked hp)
  · rw [h.setting_eq]
    exact p.alike_fallThrough _ hnote.1

end

end ScriptAnalysis
