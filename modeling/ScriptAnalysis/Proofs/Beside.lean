import ScriptAnalysis.Proofs.Events
import ScriptAnalysis.Proofs.Findings
import ScriptAnalysis.Proofs.Registration

/-!
# Walks that differ in one definition

Two programs that differ in the body of one definition are walked alike beside it. Their walks tell
alike events but for those that happen in the two bodies, and their tables differ in the scope of
the definition only, since nothing else is looked up there.
-/

namespace ScriptAnalysis

open ScopeTable (globalId mainName)

/-- Whether two rows agree but for elements that come up on one side only: on the left such with the
property `A`, on the right such with the property `A'`. -/
inductive Beside {α : Type} (S : α → α → Prop) (A A' : α → Prop) : List α → List α → Prop
  | nil : Beside S A A' [] []
  | both {x y : α} {xs ys : List α} (h : S x y) (later : Beside S A A' xs ys) :
    Beside S A A' (x :: xs) (y :: ys)
  | left {x : α} {xs ys : List α} (h : A x) (later : Beside S A A' xs ys) :
    Beside S A A' (x :: xs) ys
  | right {y : α} {xs ys : List α} (h : A' y) (later : Beside S A A' xs ys) :
    Beside S A A' xs (y :: ys)

namespace Beside

variable {α β : Type} {S : α → α → Prop} {A A' : α → Prop} {xs ys xs' ys' : List α}

theorem append (h : Beside S A A' xs ys) (h' : Beside S A A' xs' ys') :
    Beside S A A' (xs ++ xs') (ys ++ ys') := by
  induction h with
  | nil => exact h'
  | both h _ ih => exact .both h ih
  | left h _ ih => exact .left h ih
  | right h _ ih => exact .right h ih

theorem of_forall₂ (h : List.Forall₂ S xs ys) : Beside S A A' xs ys := by
  induction h with
  | nil => exact .nil
  | cons h _ ih => exact .both h ih

/-- Nothing is asked of rows that lie on their sides with every element. -/
theorem of_forall (h : ∀ x ∈ xs, A x) (h' : ∀ y ∈ ys, A' y) : Beside S A A' xs ys := by
  induction xs with
  | nil =>
    induction ys with
    | nil => exact .nil
    | cons y ys ih =>
      obtain ⟨hy, hothers⟩ := List.forall_mem_cons.1 h'
      exact .right hy (ih hothers)
  | cons x xs ih =>
    obtain ⟨hx, hothers⟩ := List.forall_mem_cons.1 h
    exact .left hx (ih hothers)

theorem filter {p : α → Bool} (h : Beside S A A' xs ys) (hp : ∀ x y, S x y → p x = p y) :
    Beside S A A' (xs.filter p) (ys.filter p) := by
  induction h with
  | nil => exact .nil
  | @both x y xs ys h _ ih =>
    rw [List.filter_cons, List.filter_cons, hp x y h]
    split
    · exact .both h ih
    · exact ih
  | left h _ ih =>
    rw [List.filter_cons]
    split
    · exact .left h ih
    · exact ih
  | right h _ ih =>
    rw [List.filter_cons]
    split
    · exact .right h ih
    · exact ih

/-- What is read off two such rows agrees where it is kept, if nothing is kept of the elements that
come up on one side only and everything of the others. -/
theorem filterMap {read : α → Option β} {T : β → β → Prop} {keep keep' : β → Bool}
    (h : Beside S A A' xs ys) (hboth : ∀ x y, S x y → Option.Rel T (read x) (read y))
    (hkeep : ∀ b b', T b b' → keep b = true ∧ keep' b' = true)
    (hdrop : ∀ x, A x → ∀ b, read x = some b → keep b = false)
    (hdrop' : ∀ y, A' y → ∀ b, read y = some b → keep' b = false) :
    List.Forall₂ T ((xs.filterMap read).filter keep) ((ys.filterMap read).filter keep') := by
  induction h with
  | nil => exact .nil
  | @both x y xs ys h _ ih =>
    have hread := hboth x y h
    rw [List.filterMap_cons, List.filterMap_cons]
    generalize read x = found, read y = found' at hread
    cases hread with
    | none => exact ih
    | some hT =>
      obtain ⟨hb, hb'⟩ := hkeep _ _ hT
      simp only [List.filter_cons, hb, hb', if_true]
      exact .cons hT ih
  | @left x xs ys h _ ih =>
    rw [List.filterMap_cons]
    cases hread : read x with
    | none => exact ih
    | some b =>
      simp only [List.filter_cons, hdrop x h b hread]
      exact ih
  | @right y xs ys h _ ih =>
    rw [List.filterMap_cons]
    cases hread : read y with
    | none => exact ih
    | some b =>
      simp only [List.filter_cons, hdrop' y h b hread]
      exact ih

end Beside

section

variable {R : Tag → Tag → Prop} {S : Event → Event → Prop} {A A' : Event → Prop}
  {events events' : List Event} {options : Options}

/-- The findings agree that are not about nodes with the numbers `own` and `own'`. -/
theorem findings_of_beside {own own' : List Nat} (h : Beside S A A' events events')
    (hS : ∀ event event', S event event' → event.Alike R event')
    (hR : ∀ a b, R a b → a.id ∉ own ∧ b.id ∉ own')
    (hA : ∀ node violation, A (.reported node violation) → node.id ∈ own)
    (hA' : ∀ node violation, A' (.reported node violation) → node.id ∈ own') :
    List.Forall₂ (Finding.Alike R)
      ((options.findings events).filter fun finding ↦ finding.node.id ∉ own)
      ((options.findings events').filter fun finding ↦ finding.node.id ∉ own') := by
  have hadmits (event event' : Event) (hevents : S event event') :
      options.admits event = options.admits event' :=
    (hS event event' hevents).admits_eq
  refine (h.filter hadmits).filterMap
    (fun event event' hevents ↦ (hS event event' hevents).finding?) ?_ ?_ ?_
  · rintro finding finding' ⟨hnodes, -⟩
    obtain ⟨hnode, hnode'⟩ := hR _ _ hnodes
    exact ⟨decide_eq_true hnode, decide_eq_true hnode'⟩
  · intro event hevent finding hfinding
    cases event with
    | reported node violation =>
      obtain rfl := Option.some.inj hfinding
      simpa using hA node violation hevent
    | _ => cases hfinding
  · intro event hevent finding hfinding
    cases event with
    | reported node violation =>
      obtain rfl := Option.some.inj hfinding
      simpa using hA' node violation hevent
    | _ => cases hfinding

/-- The warnings agree that are not attached to the spans `own` and `own'`. -/
theorem cautions_of_beside {own own' : List Span} (h : Beside S A A' events events')
    (hadmits : ∀ event event', S event event' → options.admits event = options.admits event')
    (hS : ∀ event event', S event event' →
      Option.Rel (Warning.Alike R) event.warning? event'.warning?)
    (hR : ∀ a b, R a b → a.span ∉ own ∧ b.span ∉ own')
    (hA : ∀ span caution, A (.warned span caution) → span ∈ own)
    (hA' : ∀ span caution, A' (.warned span caution) → span ∈ own') :
    List.Forall₂ (Warning.Alike R)
      ((options.cautions events).filter fun warning ↦ warning.span ∉ own)
      ((options.cautions events').filter fun warning ↦ warning.span ∉ own') := by
  refine (h.filter hadmits).filterMap hS ?_ ?_ ?_
  · rintro w w' ⟨⟨node, node', hnodes, hspan, hspan'⟩, -⟩
    obtain ⟨hnode, hnode'⟩ := hR _ _ hnodes
    rw [← hspan] at hnode
    rw [← hspan'] at hnode'
    exact ⟨decide_eq_true hnode, decide_eq_true hnode'⟩
  · intro event hevent w hw
    cases event with
    | warned span caution =>
      obtain rfl := Option.some.inj hw
      simpa using hA span caution hevent
    | _ => cases hw
  · intro event hevent w hw
    cases event with
    | warned span caution =>
      obtain rfl := Option.some.inj hw
      simpa using hA' span caution hevent
    | _ => cases hw

/-- Related nodes get the same types, if no node that is given a type on one side only is one of
them, and if they are numbered alike. -/
theorem types_of_beside (h : Beside S A A' events events')
    (hS : ∀ event event', S event event' → event.Alike R event')
    (hA : ∀ node type, A (.typed node type) → ∀ a b, R a b → a.id ≠ node.id)
    (hA' : ∀ node type, A' (.typed node type) → ∀ a b, R a b → b.id ≠ node.id)
    (hR : ∀ a b c d, R a b → R c d → (a.id = c.id ↔ b.id = d.id)) {types types' : TypeTable}
    (htypes : ∀ a b, R a b → types.get? a.id = types'.get? b.id) :
    ∀ a b, R a b → (events.foldl TypeTable.record types).get? a.id =
      (events'.foldl TypeTable.record types').get? b.id := by
  induction h generalizing types types' with
  | nil => exact htypes
  | both h _ ih =>
    apply ih
    intro a b hab
    cases hS _ _ h with
    | @typed node node' hnode type =>
      change (types.set node type).get? a.id = (types'.set node' type).get? b.id
      rw [TypeTable.get?_set, TypeTable.get?_set, htypes a b hab]
      exact if_congr (by rw [eq_comm, hR a b node node' hab hnode, eq_comm]) rfl rfl
    | _ => exact htypes a b hab
  | @left event _ _ h _ ih =>
    apply ih
    intro a b hab
    cases event with
    | typed node type =>
      change (types.set node type).get? a.id = types'.get? b.id
      rw [TypeTable.get?_set, if_neg (hA node type h a b hab).symm, htypes a b hab]
    | _ => exact htypes a b hab
  | @right event _ _ h _ ih =>
    apply ih
    intro a b hab
    cases event with
    | typed node type =>
      change types.get? a.id = (types'.set node type).get? b.id
      rw [TypeTable.get?_set, if_neg (hA' node type h a b hab).symm, htypes a b hab]
    | _ => exact htypes a b hab

end

/-! ## Walks beside each other -/

/-- Whether two walks tell events that agree but for some, end alike, and leave twins. -/
structure Walk.Beside (S : Event → Event → Prop) (A A' : Event → Prop) (P : String → Prop)
    (g : Scope) (w w' : Walk) : Prop where
  events : ScriptAnalysis.Beside S A A' w.events w'.events
  fault : w.fault = w'.fault
  scopes : ScopeTable.Twins P g g w.scopes w'.scopes

section

variable {R : Tag → Tag → Prop} {S : Event → Event → Prop} {A A' : Event → Prop}
  {P : String → Prop} {g : Scope} {t t' : ScopeTable} {seen : List String}

theorem Walk.Twins.beside {w w' : Walk} (h : w.Twins R P g g w')
    (hS : ∀ event event', event.Alike R event' → S event event') : w.Beside S A A' P g w' :=
  ⟨.of_forall₂ (h.events.imp hS), h.fault, h.scopes⟩

theorem Walk.Beside.andThen {w w' : Walk} {next next' : ScopeTable → Walk}
    (h : w.Beside S A A' P g w')
    (hnext : ScopeTable.Twins P g g w.scopes w'.scopes →
      (next w.scopes).Beside S A A' P g (next' w'.scopes)) :
    (w.andThen next).Beside S A A' P g (w'.andThen next') := by
  have later := hnext h.scopes
  unfold Walk.andThen
  rw [← h.fault]
  cases hfault : w.fault with
  | none => exact ⟨h.events.append later.events, later.fault, later.scopes⟩
  | some fault => exact ⟨h.events, h.fault, h.scopes⟩

theorem FuncDef.any_name_eq {α β : Type} {fs : List (FuncDef α)} {fs' : List (FuncDef β)}
    (h : fs.map FuncDef.name = fs'.map FuncDef.name) (name : String) :
    fs.any (·.name = name) = fs'.any (·.name = name) := by
  calc
    _ = (fs.map FuncDef.name).any (· = name) := List.any_map.symm
    _ = (fs'.map FuncDef.name).any (· = name) := by rw [h]
    _ = _ := List.any_map

/-- Definitions of one shape are walked alike before others that are walked beside each other. -/
theorem FuncDef.checkAll_beside {rest rest' : List (FuncDef Tag)}
    (hnames : rest.map FuncDef.name = rest'.map FuncDef.name)
    (hS : ∀ event event', event.Alike R event' → S event event')
    (hrest : ∀ t t' seen, ScopeTable.Twins P g g t t' →
      (FuncDef.checkAll t seen rest).Beside S A A' P g (FuncDef.checkAll t' seen rest'))
    (ps : List (FuncDef (Tag × Tag)))
    (hps : ∀ p ∈ ps, Linked (SameWords R) (p.walk fun _ ↦ false))
    (hP : ∀ p ∈ ps, p.name ∉ rest.map FuncDef.name → P p.name)
    (h : ScopeTable.Twins P g g t t') :
    (FuncDef.checkAll t seen (ps.map (FuncDef.map Prod.fst) ++ rest)).Beside S A A' P g
      (FuncDef.checkAll t' seen (ps.map (FuncDef.map Prod.snd) ++ rest')) := by
  induction ps generalizing t t' seen with
  | nil => exact hrest t t' seen h
  | cons p ps ih =>
    obtain ⟨hp, hothers⟩ := List.forall_mem_cons.1 hps
    obtain ⟨hPp, hPs⟩ := List.forall_mem_cons.1 hP
    simp only [List.map_cons, List.cons_append, FuncDef.checkAll, List.any_append,
      FuncDef.any_name_map, FuncDef.any_name_eq hnames]
    refine Walk.Beside.andThen (Walk.Twins.beside (p.check_twins h hp ?_) hS) fun hscopes ↦
      ih hothers hPs hscopes
    intro hlast
    apply hPp
    rw [hnames]
    intro hmem
    obtain ⟨f, hf, hname⟩ := List.mem_map.1 hmem
    have hlater : rest'.any (·.name = p.name) = true :=
      List.any_eq_true.2 ⟨f, hf, decide_eq_true hname⟩
    change (ps.any (·.name = p.name) || rest'.any (·.name = p.name)) = false at hlast
    rw [hlater, Bool.or_true] at hlast
    cases hlast

end

/-- Whether an event is about a node of the body of a definition, or warns of a node of the
definition. -/
def Event.InBody (f : FuncDef Tag) : Event → Prop
  | .typed node _ | .reported node _ => node.id ∈ ids (Node.body f.body).all
  | .warned span _ => span ∈ (Node.func f).all.map fun node ↦ node.note.span
  | _ => True

section

variable {P : String → Prop} {g : Scope} {t t' : ScopeTable} {seen : List String}

theorem Event.Alike.exists_of_warned {R : Tag → Tag → Prop} {span : Span} {caution : Caution}
    {event : Event} (h : (Event.warned span caution).Alike R event) :
    ∃ node node', R node node' ∧ span = node.span := by
  cases h with
  | @warned node node' h => exact ⟨node, node', h, rfl⟩

/-- A body warns of nodes of its definition only. -/
theorem FuncDef.span_mem_of_warned {own : ScopeId} (h : t.Mirrors own t own) (f : FuncDef Tag)
    {span : Span} {caution : Caution}
    (hwarned : .warned span caution ∈ (f.checkBody t own).events) :
    span ∈ (Node.func f).all.map fun node ↦ node.note.span := by
  -- The body is compared with itself, by a relation that holds of its own nodes only.
  obtain ⟨p, hfst, hsnd, hlinked⟩ := FuncDef.exists_pairs (f := id) (g := id) f f rfl
  have hp : Linked (SameWords fun a b ↦ a = b ∧ a ∈ (Node.func f).all.map Node.note)
      (p.walk fun _ ↦ false) := by
    intro node hnode
    have heq : node.note.1 = node.note.2 := hlinked node hnode
    refine ⟨⟨heq, ?_⟩, congrArg Tag.text heq⟩
    have hmem := List.mem_map_of_mem (f := Node.map Prod.fst) hnode
    rw [← FuncDef.walk_map, hfst] at hmem
    exact List.mem_map.2 ⟨_, hmem, Node.note_map _ _⟩
  have halike := (FuncDef.checkBody_alike h p hp).1.events
  rw [hfst, hsnd, List.forall₂_same] at halike
  obtain ⟨tag, _, ⟨-, htag⟩, hspan⟩ := (halike _ hwarned).exists_of_warned
  obtain ⟨node, hnode, rfl⟩ := List.mem_map.1 htag
  exact List.mem_map.2 ⟨node, hnode, hspan.symm⟩

theorem FuncDef.inBody_checkBody {own : ScopeId} (h : t.Mirrors own t own) (f : FuncDef Tag) :
    ∀ event ∈ (f.checkBody t own).events, event.InBody f := by
  intro event hevent
  have hid {node : Node Tag} (hnode : node ∈ f.body.walkParts fun _ ↦ false) :
      node.note.id ∈ ids (Node.body f.body).all :=
    List.mem_map_of_mem (List.mem_cons_of_mem _ hnode)
  cases f.records_checkBody.about event hevent with
  | typed hnode => exact hid hnode
  | read => trivial
  | reported hnode => exact hid hnode
  | warned => exact f.span_mem_of_warned h hevent

theorem FuncDef.inBody_within (h : t.Flat g) (f : FuncDef Tag) :
    ∀ event ∈ (t.within f.name (f.checkBody t ·)).events, event.InBody f := by
  unfold ScopeTable.within
  rw [h.childNamed?]
  cases hchild : g.children[f.name]? with
  | none => simp
  | some own =>
    obtain ⟨s, hinside⟩ := h.inside hchild
    have hbody := f.inBody_checkBody ⟨s, g, g, hinside, hinside, fun _ ↦ rfl⟩
    refine List.forall_mem_cons.2 ⟨trivial, List.forall_mem_append.2 ⟨hbody, ?_⟩⟩
    split
    · exact List.forall_mem_singleton.2 trivial
    · exact List.forall_mem_nil _

/-- Two definitions with the same name and alike headers are walked beside each other, wherever
neither is the one that the names that count lead to. -/
theorem FuncDef.check_beside {S : Event → Event → Prop} {shadowed : Bool} {f f' : FuncDef Tag}
    (h : ScopeTable.Twins P g g t t') (hname : f.name = f'.name)
    (hreports : List.Forall₂ S (f.reports seen) (f'.reports seen))
    (hskipped : S (.skipped f.name f.note.line) (.skipped f'.name f'.note.line))
    (hP : shadowed = false → ∀ name, P name → name ≠ f.name)
    (hfault : (f.check t seen shadowed).fault = none)
    (hfault' : (f'.check t' seen shadowed).fault = none) :
    (f.check t seen shadowed).Beside S (Event.InBody f) (Event.InBody f') P g
      (f'.check t' seen shadowed) := by
  refine ⟨?_, hfault.trans hfault'.symm, f.flat_check h.flat, f'.flat_check h.flat', rfl, ?_⟩
  · rw [FuncDef.check_eq, FuncDef.check_eq]
    cases shadowed with
    | true => exact .of_forall₂ (List.rel_append hreports (.cons hskipped .nil))
    | false =>
      exact (ScriptAnalysis.Beside.of_forall₂ hreports).append
        (.of_forall (f.inBody_within h.flat) (f'.inBody_within h.flat'))
  · intro name hcounts
    cases shadowed with
    | true => exact h.under name hcounts
    | false =>
      have hne := hP rfl name hcounts
      rw [f.under_check h.flat hne, f'.under_check h.flat' (hname ▸ hne), h.under name hcounts]

/-- Two such definitions, and behind them definitions of one shape. -/
theorem FuncDef.checkAll_cons_beside {R : Tag → Tag → Prop} {S : Event → Event → Prop}
    {f f' : FuncDef Tag} {own : ScopeId} {ps : List (FuncDef (Tag × Tag))}
    (h : ScopeTable.Twins P g g t t') (hname : f.name = f'.name) (hf : f.Written)
    (hf' : f'.Written) (hown : g.children[f.name]? = some own)
    (hreports : List.Forall₂ S (f.reports seen) (f'.reports seen))
    (hskipped : S (.skipped f.name f.note.line) (.skipped f'.name f'.note.line))
    (hS : ∀ event event', event.Alike R event' → S event event')
    (hps : ∀ p ∈ ps, Linked (SameWords R) (p.walk fun _ ↦ false))
    (hP : ps.any (·.name = f.name) = false → ¬P f.name) (hPs : ∀ p ∈ ps, P p.name) :
    (FuncDef.checkAll t seen (f :: ps.map (FuncDef.map Prod.fst))).Beside S (Event.InBody f)
      (Event.InBody f') P g (FuncDef.checkAll t' seen (f' :: ps.map (FuncDef.map Prod.snd))) := by
  have hchild : t.childNamed? globalId f.name = some own := (h.flat.childNamed? _).trans hown
  have hchild' : t'.childNamed? globalId f'.name = some own :=
    (h.flat'.childNamed? _).trans (hname ▸ hown)
  rw [FuncDef.checkAll, FuncDef.checkAll, FuncDef.any_name_map, FuncDef.any_name_map, ← hname]
  apply Walk.Beside.andThen
  · apply FuncDef.check_beside h hname hreports hskipped
    · rintro hlast _ hcounts rfl
      exact hP hlast hcounts
    · exact FuncDef.fault_check hf hchild
    · exact FuncDef.fault_check hf' hchild'
  · intro hscopes
    exact Walk.Twins.beside (FuncDef.checkAll_twins hscopes ps hps hPs) hS

end

section

variable {g : Scope} {t : ScopeTable} {id : ScopeId}

theorem FuncDef.scope?_checkAll (h : t.Flat g) (hid : ∀ name : String, g.children[name]? ≠ some id)
    (seen : List String) (fs : List (FuncDef Tag)) :
    (FuncDef.checkAll t seen fs).scopes.Flat g ∧
      (FuncDef.checkAll t seen fs).scopes.scope? id = t.scope? id := by
  induction fs generalizing t seen with
  | nil => exact ⟨h, rfl⟩
  | cons f fs ih =>
    have hflat : (f.check t seen (fs.any (·.name = f.name))).scopes.Flat g := f.flat_check h
    have hfirst : (f.check t seen (fs.any (·.name = f.name))).scopes.scope? id = t.scope? id := by
      rw [FuncDef.check_eq]
      split
      · rfl
      · exact h.scope?_within f.checkBody_staysIn (hid f.name)
    obtain ⟨hlater, hothers⟩ := ih hflat (f.name :: seen)
    rw [FuncDef.checkAll, Walk.andThen]
    split
    · exact ⟨hflat, hfirst⟩
    · exact ⟨hlater, hothers.trans hfirst⟩

/-- The second walk leaves a scope alone that is registered under no name. -/
theorem Script.scope?_check (h : t.Flat g) (hid : ∀ name : String, g.children[name]? ≠ some id)
    (s : Script Tag) : (s.check t).scopes.scope? id = t.scope? id := by
  obtain ⟨hflat, hfuncs⟩ := FuncDef.scope?_checkAll h hid [] s.funcs
  rw [Script.check, Walk.andThen]
  split
  · exact hfuncs
  · cases s.main with
    | none => exact hfuncs
    | some b =>
      refine Eq.trans ?_ hfuncs
      exact hflat.scope?_within (fun own hne ↦ Body.check_staysIn hne [] [] b) (hid mainName)

end

end ScriptAnalysis
