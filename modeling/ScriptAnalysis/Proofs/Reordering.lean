import ScriptAnalysis.Proofs.Findings
import ScriptAnalysis.Proofs.LogKeys
import ScriptAnalysis.Proofs.Registration

/-!
# The order of function definitions

Where all functions of a program have names of their own, each is walked in a scope that no other
touches, and sees of the others only what the first walk bound. So every definition is walked as if
it were the first, and in another order the same is found.
-/

namespace ScriptAnalysis

open ScopeTable (globalId mainName)

/-- The events other than entering and leaving scopes. -/
def news (events : List Event) : List Event := events.filter fun event ↦ event.move?.isNone

theorem news_append (events later : List Event) :
    news (events ++ later) = news events ++ news later :=
  List.filter_append ..

theorem news_of_alike {events events' : List Event}
    (h : List.Forall₂ (Event.Alike Eq) events events') : news events = news events' := by
  unfold news
  induction h with
  | nil => rfl
  | cons hevent _ ih =>
    rw [List.filter_cons, List.filter_cons, ih]
    cases hevent with
    | typed hnode | reported hnode | warned hnode | skipped hnode => rw [hnode]
    | _ => rfl

theorem filterMap_news {α : Type} {read : Event → Option α}
    (hread : ∀ event, event.move?.isSome = true → read event = none) (events : List Event) :
    (news events).filterMap read = events.filterMap read := by
  unfold news
  rw [List.filterMap_filter]
  congr 1
  funext event
  cases hmove : event.move? with
  | none => rfl
  | some move => exact (hread event (by rw [hmove]; rfl)).symm

theorem types_news (events : List Event) (types : TypeTable) :
    (news events).foldl TypeTable.record types = events.foldl TypeTable.record types := by
  unfold news
  rw [List.foldl_filter]
  congr 1
  funext types event
  cases event <;> rfl

section

variable {events events' : List Event} (h : (news events).Perm (news events'))

include h

theorem filterMap_perm {α : Type} {read : Event → Option α}
    (hread : ∀ event, event.move?.isSome = true → read event = none) :
    (events.filterMap read).Perm (events'.filterMap read) := by
  rw [← filterMap_news hread, ← filterMap_news hread events']
  exact h.filterMap read

theorem Options.findings_perm (options : Options) :
    (options.findings events).Perm (options.findings events') := by
  unfold Options.findings
  rw [List.filterMap_filter, List.filterMap_filter]
  apply filterMap_perm h
  intro event hmove
  cases event with
  | entered | left => rfl
  | _ => cases hmove

theorem Options.cautions_perm (options : Options) :
    (options.cautions events).Perm (options.cautions events') := by
  unfold Options.cautions
  rw [List.filterMap_filter, List.filterMap_filter]
  apply filterMap_perm h
  intro event hmove
  cases event with
  | entered | left => rfl
  | _ => cases hmove

end

theorem TypeTable.set_comm (types : TypeTable) {node node' : Tag} (hne : node.id ≠ node'.id)
    (type type' : Ty) :
    (types.set node type).set node' type' = (types.set node' type').set node type := by
  apply congrArg TypeTable.mk
  apply Std.ExtTreeMap.ext_getElem?
  intro id
  simp only [TypeTable.set, Std.ExtTreeMap.getElem?_insert, Std.LawfulEqCmp.compare_eq_iff_eq]
  by_cases hid : node.id = id
  · rw [if_pos hid, if_neg (fun hid' ↦ hne (hid.trans hid'.symm)), if_pos hid]
  · rw [if_neg hid, if_neg hid]

/-- Whether two events do not give a type to the same node. -/
def Event.TypesApart (event other : Event) : Prop :=
  ∀ id, event.typedId? = some id → ∀ id', other.typedId? = some id' → id ≠ id'

instance : Std.Symm Event.TypesApart := ⟨fun _ _ h id hid id' hid' ↦ (h id' hid' id hid).symm⟩

/-- Where no node is given a type twice, the table of types does not hang on the order. -/
theorem types_perm {events events' : List Event} (h : (news events).Perm (news events'))
    (hnodup : (typedIds events).Nodup) (types : TypeTable) :
    events.foldl TypeTable.record types = events'.foldl TypeTable.record types := by
  have hapart : (news events).Pairwise Event.TypesApart :=
    (List.pairwise_filterMap.1 hnodup).filter _
  rw [← types_news, ← types_news events']
  apply h.foldl_eq'
  intro event hevent other hother types
  cases event with
  | typed node type =>
    cases other with
    | typed node' type' =>
      by_cases heq : Event.typed node type = Event.typed node' type'
      · cases heq
        rfl
      · exact types.set_comm (hapart.forall hevent hother heq node.id rfl node'.id rfl) type type'
    | _ => rfl
  | _ => cases other <;> rfl

section

variable {t : ScopeTable} {name : String} {walk : ScopeId → Walk} {nodes nodes' : List (Node Tag)}

theorem TypedOnce.within (h : ∀ id, TypedOnce nodes (walk id).events) :
    TypedOnce nodes (t.within name walk).events := by
  unfold ScopeTable.within
  cases t.childNamed? globalId name with
  | none => exact .of_typedIds_eq_nil rfl
  | some scope =>
    intro id
    have hleaving : typedIds (if (walk scope).fault.isNone then [.left .inferring name scope]
        else []) = [] := by
      split <;> rfl
    have hevents : typedIds (.entered .inferring name scope :: (walk scope).events ++
        if (walk scope).fault.isNone then [.left .inferring name scope] else []) =
        typedIds (walk scope).events := by
      rw [typedIds_append, hleaving, List.append_nil]
      rfl
    simp only [hevents]
    exact h scope id

theorem TypedOnce.andThen {w : Walk} {next : ScopeTable → Walk} (h : TypedOnce nodes w.events)
    (hnext : TypedOnce nodes' (next w.scopes).events) :
    TypedOnce (nodes ++ nodes') (w.andThen next).events := by
  unfold Walk.andThen
  split
  · intro id
    have hempty : TypedOnce nodes' [] := .of_typedIds_eq_nil rfl
    have hboth := h.append hempty id
    rwa [List.append_nil] at hboth
  · exact h.append hnext

theorem FuncDef.typedOnce_check {seen : List String} {shadowed : Bool} (f : FuncDef Tag) :
    TypedOnce (f.walk fun _ ↦ false) (f.check t seen shadowed).events := by
  rw [FuncDef.check_eq]
  cases shadowed with
  | true =>
    apply TypedOnce.of_typedIds_eq_nil
    change typedIds (f.reports seen ++ [.skipped f.name f.note.line]) = []
    rw [typedIds_append, f.typedIds_reports]
    rfl
  | false =>
    have hbody : TypedOnce (f.walk fun _ ↦ false) (t.within f.name (f.checkBody t ·)).events :=
      .within fun id ↦ f.typedOnce_checkBody
    intro id
    change (typedIds (f.reports seen ++ (t.within f.name (f.checkBody t ·)).events)).count id ≤ _
    rw [typedIds_append, f.typedIds_reports]
    exact hbody id

theorem FuncDef.typedOnce_checkAll {seen : List String} (fs : List (FuncDef Tag)) :
    TypedOnce (fs.flatMap (FuncDef.walk fun _ ↦ false)) (FuncDef.checkAll t seen fs).events := by
  induction fs generalizing t seen with
  | nil => exact .of_typedIds_eq_nil rfl
  | cons f fs ih => exact f.typedOnce_check.andThen ih

theorem Script.typedOnce_check (s : Script Tag) :
    TypedOnce (Node.script s).all (s.check t).events := by
  apply TypedOnce.below
  apply (FuncDef.typedOnce_checkAll s.funcs).andThen
  cases s.main with
  | none => exact .of_typedIds_eq_nil rfl
  | some b =>
    rw [Option.toList_some, List.flatMap_singleton]
    exact TypedOnce.within fun id ↦ (b.records_check .nil).once.below (.main b)

end

/-! ## Definitions with names of their own -/

section

variable {t t' : ScopeTable} {g g' : Scope} {P : String → Prop} {fs fs' : List (FuncDef Tag)}

/-- The walk over definitions where none has the name of another. -/
def FuncDef.checkEach (t : ScopeTable) : List (FuncDef Tag) → Walk
  | [] => ⟨t, [], none⟩
  | f :: fs => (f.check t [] false).andThen fun t ↦ FuncDef.checkEach t fs

theorem FuncDef.checkAll_of_nodup {seen : List String} (hnodup : (fs.map FuncDef.name).Nodup)
    (hseen : ∀ f ∈ fs, f.name ∉ seen) :
    FuncDef.checkAll t seen fs = FuncDef.checkEach t fs := by
  induction fs generalizing t seen with
  | nil => rfl
  | cons f fs ih =>
    obtain ⟨hname, hnodup⟩ := List.nodup_cons.1 hnodup
    obtain ⟨hfirst, hothers⟩ := List.forall_mem_cons.1 hseen
    have hshadowed : fs.any (·.name = f.name) = false := by
      rw [List.any_eq_false]
      intro f' hf' heq
      exact hname (of_decide_eq_true heq ▸ List.mem_map_of_mem hf')
    have hcheck : f.check t seen false = f.check t [] false := by
      rw [FuncDef.check_eq, FuncDef.check_eq, FuncDef.reports, FuncDef.reports, if_neg hfirst,
        if_neg List.not_mem_nil]
    rw [FuncDef.checkAll, FuncDef.checkEach, hshadowed, hcheck]
    congr 1
    funext t
    apply ih hnodup
    intro f' hf' hmem
    rcases List.mem_cons.1 hmem with heq | hmem
    · exact hname (heq ▸ List.mem_map_of_mem hf')
    · exact hothers f' hf' hmem

theorem FuncDef.check_self_twins (h : ScopeTable.Twins P g g' t t') (f : FuncDef Tag)
    (hname : P f.name) :
    (f.check t [] false).Twins Eq P g g' (f.check t' [] false) := by
  obtain ⟨p, hfst, hsnd, hlinked⟩ := f.exists_pairs (f := id) (g := id) f rfl
  have hp : Linked (SameWords Eq) (p.walk fun _ ↦ false) :=
    hlinked.mono fun a b hab ↦ ⟨hab, congrArg Tag.text hab⟩
  have hcheck : ((p.map Prod.fst).check t [] false).Twins Eq P g g'
      ((p.map Prod.snd).check t' [] false) :=
    FuncDef.check_twins h p hp fun _ ↦ (congrArg FuncDef.name hfst ▸ hname : P p.name)
  rwa [hfst, hsnd] at hcheck

/-- What the walk `w` over some definitions from the table `t` on leaves, if each of them is walked
as if it were the first. -/
structure FuncDef.EachFirst (t : ScopeTable) (g : Scope) (fs : List (FuncDef Tag)) (w : Walk) :
    Prop where
  fault : w.fault = (fs.map fun f ↦ (f.check t [] false).fault).findSome? id
  news : w.fault = none → news w.events = fs.flatMap fun f ↦ news (f.check t [] false).events
  flat : w.scopes.Flat g
  own : w.fault = none → ∀ f ∈ fs, w.scopes.under f.name = (f.check t [] false).scopes.under f.name
  others : ∀ name, name ∉ fs.map FuncDef.name → w.scopes.under name = t.under name

theorem FuncDef.checkEach_eachFirst (h : t.Flat g) (hnodup : (fs.map FuncDef.name).Nodup) :
    FuncDef.EachFirst t g fs (FuncDef.checkEach t fs) := by
  induction fs generalizing t with
  | nil => exact ⟨rfl, fun _ ↦ rfl, h, fun _ ↦ List.forall_mem_nil _, fun _ _ ↦ rfl⟩
  | cons f fs ih =>
    obtain ⟨hname, hnodup⟩ := List.nodup_cons.1 hnodup
    have hflat : (f.check t [] false).scopes.Flat g := f.flat_check h
    -- The first definition leaves the scopes of the others alone, so those find them as before.
    have hlater : ∀ f' ∈ fs, (f'.check (f.check t [] false).scopes [] false).Twins Eq (· = f'.name)
        g g (f'.check t [] false) := by
      intro f' hf'
      have htwins : ScopeTable.Twins (· = f'.name) g g (f.check t [] false).scopes t := by
        refine ⟨hflat, h, rfl, ?_⟩
        rintro _ rfl
        exact f.under_check h fun heq ↦ hname (heq ▸ List.mem_map_of_mem hf')
      exact f'.check_self_twins htwins rfl
    have others := ih hflat hnodup
    have hfaults : (fs.map fun f' ↦ (f'.check (f.check t [] false).scopes [] false).fault) =
        fs.map fun f' ↦ (f'.check t [] false).fault :=
      List.map_congr_left fun f' hf' ↦ (hlater f' hf').fault
    rw [FuncDef.checkEach]
    cases hfault : (f.check t [] false).fault with
    | some fault =>
      have hwalk : (f.check t [] false).andThen (FuncDef.checkEach · fs) = f.check t [] false := by
        rw [Walk.andThen, hfault]
      rw [hwalk]
      refine ⟨?_, ?_, hflat, ?_, ?_⟩
      · rw [List.map_cons, List.findSome?_cons, hfault]
        rfl
      · rw [hfault]
        exact nofun
      · rw [hfault]
        exact nofun
      · intro name hmem
        rw [List.map_cons, List.mem_cons, not_or] at hmem
        exact f.under_check h hmem.1
    | none =>
      rw [Walk.andThen_of_fault hfault]
      refine ⟨?_, ?_, others.flat, ?_, ?_⟩
      · rw [List.map_cons, List.findSome?_cons, hfault, ← hfaults]
        exact others.fault
      · intro hnone
        rw [news_append, others.news hnone, List.flatMap_cons]
        congr 1
        apply List.flatMap_congr
        intro f' hf'
        exact news_of_alike (hlater f' hf').events
      · intro hnone
        rw [List.forall_mem_cons]
        refine ⟨others.others f.name hname, ?_⟩
        intro f' hf'
        rw [others.own hnone f' hf']
        exact (hlater f' hf').scopes.under f'.name rfl
      · intro name hmem
        rw [List.map_cons, List.mem_cons, not_or] at hmem
        rw [others.others name hmem.2]
        exact f.under_check h hmem.1

theorem findSome?_of_perm {α : Type} [DecidableEq α] {a : α} {xs ys : List (Option α)}
    (h : xs.Perm ys) (hxs : ∀ x ∈ xs, x = none ∨ x = some a) :
    xs.findSome? id = ys.findSome? id := by
  have hfirst : ∀ {zs : List (Option α)}, (∀ z ∈ zs, z = none ∨ z = some a) →
      zs.findSome? id = if some a ∈ zs then some a else none := by
    intro zs hzs
    induction zs with
    | nil => rfl
    | cons z zs ih =>
      obtain ⟨hz, hothers⟩ := List.forall_mem_cons.1 hzs
      rw [List.findSome?_cons]
      rcases hz with rfl | rfl
      · simpa using ih hothers
      · simp
  have hys : ∀ y ∈ ys, y = none ∨ y = some a := fun y hy ↦ hxs y (h.mem_iff.2 hy)
  rw [hfirst hxs, hfirst hys]
  simp only [h.mem_iff]

theorem Body.fault_check_cases (t : ScopeTable) (id : ScopeId) (params : List Local)
    (closing : List Event) (b : Body Tag) :
    (b.check t id params closing).fault = none ∨
      (b.check t id params closing).fault = some .emptyName := by
  unfold Body.check closeLocals
  simp only
  split
  · exact .inr rfl
  · exact .inl rfl

theorem FuncDef.fault_check_cases (f : FuncDef Tag) (hunder : t.under f.name ≠ none) :
    (f.check t [] false).fault = none ∨ (f.check t [] false).fault = some .emptyName := by
  rw [FuncDef.check_eq, if_neg Bool.false_ne_true, ScopeTable.within]
  cases hchild : t.childNamed? globalId f.name with
  | none => exact absurd (by rw [ScopeTable.under, hchild]; rfl) hunder
  | some id => exact Body.fault_check_cases t id _ _ f.body

/-- What two walks have in common if what they tell differs in order only: how they end and, where
they come to their end, the news and what stands under every name. -/
structure Walk.Shuffled (g g' : Scope) (w w' : Walk) : Prop where
  fault : w.fault = w'.fault
  news : w.fault = none → (news w.events).Perm (news w'.events)
  scopes : w.fault = none → ScopeTable.Twins (fun _ ↦ True) g g' w.scopes w'.scopes

theorem FuncDef.checkEach_perm (hperm : fs.Perm fs') (hnodup : (fs.map FuncDef.name).Nodup)
    (h : ScopeTable.Twins (fun _ ↦ True) g g' t t') (hunder : ∀ f ∈ fs, t.under f.name ≠ none) :
    (FuncDef.checkEach t fs).Shuffled g g' (FuncDef.checkEach t' fs') := by
  have hnodup' := (hperm.map FuncDef.name).nodup_iff.1 hnodup
  have hfirst := FuncDef.checkEach_eachFirst h.flat hnodup
  have hfirst' := FuncDef.checkEach_eachFirst h.flat' hnodup'
  have htwins : ∀ f ∈ fs, (f.check t [] false).Twins Eq (fun _ ↦ True) g g'
      (f.check t' [] false) := fun f _ ↦ f.check_self_twins h trivial
  have hfault : (FuncDef.checkEach t fs).fault = (FuncDef.checkEach t' fs').fault := by
    rw [hfirst.fault, hfirst'.fault, List.map_congr_left fun f hf ↦ (htwins f hf).fault]
    apply findSome?_of_perm (hperm.map _)
    intro x hx
    obtain ⟨f, hf, rfl⟩ := List.mem_map.1 hx
    rw [← (htwins f hf).fault]
    exact f.fault_check_cases (hunder f hf)
  refine ⟨hfault, fun hnone ↦ ?_, fun hnone ↦ ⟨hfirst.flat, hfirst'.flat, h.bare, fun name _ ↦ ?_⟩⟩
  · rw [hfirst.news hnone, hfirst'.news (hfault ▸ hnone)]
    apply hperm.flatMap
    intro f hf
    rw [news_of_alike (htwins f hf).events]
  · by_cases hmem : name ∈ fs.map FuncDef.name
    · obtain ⟨f, hf, rfl⟩ := List.mem_map.1 hmem
      rw [hfirst.own hnone f hf, hfirst'.own (hfault ▸ hnone) f (hperm.mem_iff.1 hf)]
      exact (htwins f hf).scopes.under f.name trivial
    · have hmem' : name ∉ fs'.map FuncDef.name := (hperm.map FuncDef.name).mem_iff.not.1 hmem
      rw [hfirst.others name hmem, hfirst'.others name hmem', h.under name trivial]

end

section

variable {s : Script Tag} {fs : List (FuncDef Tag)} {t t' : ScopeTable} {g g' : Scope}

theorem Body.checkMain_self_twins (h : ScopeTable.Twins (fun _ ↦ True) g g' t t') (b : Body Tag) :
    (b.checkMain t).Twins Eq (fun _ ↦ True) g g' (b.checkMain t') := by
  obtain ⟨p, hfst, hsnd, -, hlinked⟩ := b.exists_pairs (f := id) (g := id) b rfl
  have hp : Linked (SameWords Eq) (p.walkParts fun _ ↦ false) :=
    hlinked.mono fun a b hab ↦ ⟨hab, congrArg Tag.text hab⟩
  have hcheck := p.checkMain_twins h hp trivial
  rwa [hfst, hsnd] at hcheck

theorem Script.check_perm (hperm : fs.Perm s.funcs) (hnodup : (s.funcs.map FuncDef.name).Nodup)
    (h : ScopeTable.Twins (fun _ ↦ True) g g' t t') (hunder : ∀ f ∈ fs, t.under f.name ≠ none) :
    (Script.check t { s with funcs := fs }).Shuffled g g' (s.check t') := by
  have hnodup' := (hperm.map FuncDef.name).nodup_iff.2 hnodup
  have hfuncs := FuncDef.checkEach_perm hperm hnodup' h hunder
  unfold Script.check
  rw [FuncDef.checkAll_of_nodup hnodup' (by simp), FuncDef.checkAll_of_nodup hnodup (by simp)]
  cases hfault : (FuncDef.checkEach t fs).fault with
  | some fault =>
    have hfault' := hfuncs.fault ▸ hfault
    simp only [Walk.andThen, hfault, hfault']
    exact hfuncs
  | none =>
    have hfault' := hfuncs.fault ▸ hfault
    rw [Walk.andThen_of_fault hfault, Walk.andThen_of_fault hfault']
    cases s.main with
    | none =>
      refine ⟨rfl, fun _ ↦ ?_, fun _ ↦ hfuncs.scopes hfault⟩
      rw [List.append_nil, List.append_nil]
      exact hfuncs.news hfault
    | some b =>
      have hmain := b.checkMain_self_twins (hfuncs.scopes hfault)
      refine ⟨hmain.fault, fun _ ↦ ?_, fun _ ↦ hmain.scopes⟩
      rw [news_append, news_append, news_of_alike hmain.events]
      exact (hfuncs.news hfault).append_right _

/-- In another order the first walk binds and registers the same. -/
theorem Script.declare_perm (hperm : fs.Perm s.funcs) (hnodup : (s.funcs.map FuncDef.name).Nodup) :
    ∃ g g', ScopeTable.Twins (fun _ ↦ True) g g'
      (Script.declare .initial { s with funcs := fs }).scopes (s.declare .initial).scopes := by
  have hnodup' := (hperm.map FuncDef.name).nodup_iff.2 hnodup
  obtain ⟨g, hflat, hbare, hunder⟩ :=
    Script.declare_flat ScopeTable.flat_initial { s with funcs := fs }
  obtain ⟨g', hflat', hbare', hunder'⟩ := s.declare_flat ScopeTable.flat_initial
  refine ⟨g, g', hflat, hflat', ?_, fun name _ ↦ ?_⟩
  · rw [hbare, hbare', Scope.bindAll_perm hperm hnodup']
  · rw [hunder, hunder', Script.scopeUnder, Script.scopeUnder,
      FuncDef.lastNamed_perm hperm hnodup']

theorem Script.under_declare (s : Script Tag) {f : FuncDef Tag} (hf : f ∈ s.funcs) :
    (s.declare .initial).scopes.under f.name ≠ none := by
  obtain ⟨g, -, -, hunder⟩ := s.declare_flat ScopeTable.flat_initial
  rw [hunder, Script.scopeUnder]
  split
  · exact nofun
  · exact FuncDef.lastNamed_ne_none (List.mem_map_of_mem hf) _

end

/-- For every program whose functions have names of their own, the order of their definitions makes
no difference to an analysis. In any order it ends alike. Where it comes to its end, it reports the
same findings and gives the same warnings, if perhaps in another order, so that the log has entries
under the same keys and as many of them; and the validity, the outline of the scopes and, where
every node has a number of its own, the table of types are the same. Of a program that was read from
a source the analysis comes to its end, and every node has a number of its own. -/
theorem definitions_in_any_order (s : Script Tag) {fs : List (FuncDef Tag)}
    (hperm : fs.Perm s.funcs) (hnodup : (s.funcs.map FuncDef.name).Nodup) (options : Options) :
    (∀ source, Script.parse source = .ok s →
      (s.analyze options).fault = none ∧ (ids (Node.script s).all).Nodup) ∧
    (Script.analyze options { s with funcs := fs }).fault = (s.analyze options).fault ∧
    ((s.analyze options).fault = none →
      ((ids (Node.script s).all).Nodup →
        (Script.analyze options { s with funcs := fs }).types = (s.analyze options).types) ∧
      ((Node.script { s with funcs := fs }).findings options).Perm
        ((Node.script s).findings options) ∧
      (Script.analyze options { s with funcs := fs }).log.keys.Perm (s.analyze options).log.keys ∧
      (Script.analyze options { s with funcs := fs }).log.total = (s.analyze options).log.total ∧
      (Script.analyze options { s with funcs := fs }).isOk = (s.analyze options).isOk ∧
      (Script.analyze options { s with funcs := fs }).warnings.Perm (s.analyze options).warnings ∧
      (Script.analyze options { s with funcs := fs }).scopes.outline globalId =
        (s.analyze options).scopes.outline globalId) := by
  obtain ⟨g, g', htwins⟩ := Script.declare_perm hperm hnodup
  have hshuffled : (Node.script { s with funcs := fs }).secondWalk.Shuffled g g'
      (Node.script s).secondWalk :=
    Script.check_perm hperm hnodup htwins fun f hf ↦ Script.under_declare _ hf
  refine ⟨fun source hs ↦ ?_, hshuffled.fault, fun hended ↦ ?_⟩
  · obtain ⟨_, _, _, htour⟩ := Script.exists_tour hs
    exact ⟨congrArg Walk.fault htour.check, (Node.ReadFrom.script hs).nodup_ids⟩
  have hended : (Node.script { s with funcs := fs }).secondWalk.fault = none :=
    hshuffled.fault.trans hended
  have hnews := hshuffled.news hended
  have hfindings : ((Node.script { s with funcs := fs }).findings options).Perm
      ((Node.script s).findings options) := options.findings_perm hnews
  have hkeys : (Script.analyze options { s with funcs := fs }).log.keys.Perm
      (s.analyze options).log.keys := by
    unfold Script.analyze Report.log
    rw [Node.analysis_analyze, Node.analysis_analyze]
    exact Log.perm_keys_foldl_add (hfindings.map Finding.entry)
  refine ⟨fun hids ↦ ?_, hfindings, hkeys, ?_, ?_, options.cautions_perm hnews,
    (hshuffled.scopes hended).outline_eq⟩
  · have honce : (typedIds (Node.script s).secondWalk.events).Nodup := s.typedOnce_check.nodup hids
    unfold Script.analyze Report.types
    rw [Node.analysis_analyze, Node.analysis_analyze]
    exact (types_perm hnews.symm honce .empty).symm
  · rw [Log.total_eq_length_keys, Log.total_eq_length_keys, hkeys.length_eq]
  · unfold Script.analyze
    rw [Node.isOk_eq_isEmpty, Node.isOk_eq_isEmpty, hfindings.isEmpty_eq]

/-- A function that calls one defined behind it, and the two the other way round. The second reports
and is warned of. -/
theorem definitions_in_any_order_swapped :
    ∃ note f h main,
      Script.parse "func f():Int{return h()}func h():Int{x=1}print f()" =
        .ok ⟨note, [f, h], some main⟩ ∧
      [h, f].Perm [f, h] ∧ ([f, h].map FuncDef.name).Nodup ∧
      (Script.analyze {} ⟨note, [f, h], some main⟩).fault = none ∧
      (Script.analyze {} ⟨note, [h, f], some main⟩).types =
        (Script.analyze {} ⟨note, [f, h], some main⟩).types ∧
      (Script.analyze {} ⟨note, [h, f], some main⟩).warnings.Perm
        (Script.analyze {} ⟨note, [f, h], some main⟩).warnings := by
  obtain ⟨note, a, b, c, d, main, hs⟩ : ∃ note a b c d main,
      Script.parse "func f():Int{return h()}func h():Int{x=1}print f()" =
        .ok ⟨note, [⟨a, "f", [], "Int", b⟩, ⟨c, "h", [], "Int", d⟩], some main⟩ := by
    refine ⟨?_, ?_, ?_, ?_, ?_, ?_, ?parse⟩
    case parse =>
      cbv
      rfl
  have hnodup : (["f", "h"] : List String).Nodup := by decide
  obtain ⟨hread, -, hsame⟩ := definitions_in_any_order
    ⟨note, [⟨a, "f", [], "Int", b⟩, ⟨c, "h", [], "Int", d⟩], some main⟩ (.swap _ _ []) hnodup {}
  obtain ⟨hended, hids⟩ := hread _ hs
  obtain ⟨htypes, -, -, -, -, hwarnings, -⟩ := hsame hended
  exact ⟨_, _, _, _, hs, .swap _ _ [], hnodup, hended, htypes hids, hwarnings⟩

end ScriptAnalysis
