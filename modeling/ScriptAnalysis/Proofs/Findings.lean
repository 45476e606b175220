import ScriptAnalysis.Proofs.Lockstep
import ScriptAnalysis.Proofs.OptionEffects
import ScriptAnalysis.Proofs.Twins

/-!
# What is read off the events

The first walk only enters and leaves scopes, so all that an analysis answers with is read off the
events of the second: the types, the findings, of which the log keeps one for each key, and the
warnings. Alike events are read alike.
-/

namespace ScriptAnalysis

open ScopeTable (globalId)

/-- What is reported of a node. -/
structure Finding where
  node : Tag
  category : Category
  message : String

def Finding.entry (f : Finding) : Entry := ⟨f.node.span, f.node.text, f.category, f.message⟩

def Event.finding? : Event → Option Finding
  | .reported node violation => some ⟨node, violation.category, violation.message⟩
  | _ => none

/-- The findings of a walk that count, in order. -/
def Options.findings (options : Options) (events : List Event) : List Finding :=
  (events.filter options.admits).filterMap Event.finding?

/-- The warnings of a walk that count, in order. -/
def Options.cautions (options : Options) (events : List Event) : List Warning :=
  (events.filter options.admits).filterMap Event.warning?

def Node.findings (options : Options) (root : Node Tag) : List Finding :=
  options.findings root.secondWalk.events

theorem Options.entries_eq_map_findings (options : Options) (events : List Event) :
    options.entries events = (options.findings events).map Finding.entry := by
  unfold Options.entries Options.findings
  rw [List.map_filterMap]
  congr 1
  funext event
  cases event <;> rfl

theorem FuncDef.declareAll_moves (t : ScopeTable) (fs : List (FuncDef Tag)) :
    ∀ event ∈ (FuncDef.declareAll t fs).events, event.move?.isSome = true := by
  induction fs generalizing t with
  | nil => simp [FuncDef.declareAll]
  | cons f fs ih =>
    intro event hevent
    rcases Walk.mem_andThen hevent with hfirst | hlater
    · rcases (by simpa [FuncDef.declare] using hfirst) with rfl | rfl <;> rfl
    · exact ih _ event hlater

/-- The first walk does nothing but enter and leave scopes. -/
theorem Node.declare_moves (t : ScopeTable) (root : Node Tag) :
    ∀ event ∈ (root.declare t).events, event.move?.isSome = true := by
  intro event hevent
  cases root with
  | script s =>
    rcases Walk.mem_andThen hevent with hfuncs | hmain
    · exact FuncDef.declareAll_moves t s.funcs event hfuncs
    · cases hm : s.main with
      | none => simp [hm] at hmain
      | some main => rcases (by simpa [hm, Body.declareMain] using hmain) with rfl | rfl <;> rfl
  | func f => rcases (by simpa [Node.declare, FuncDef.declare] using hevent) with rfl | rfl <;> rfl
  | main b =>
    rcases (by simpa [Node.declare, Body.declareMain] using hevent) with rfl | rfl <;> rfl
  | _ => simp [Node.declare] at hevent

theorem filterMap_of_moves {α : Type} {read : Event → Option α} {events : List Event}
    (h : ∀ event ∈ events, event.move?.isSome = true)
    (hread : ∀ event, event.move?.isSome = true → read event = none) :
    events.filterMap read = [] := by
  rw [List.filterMap_eq_nil_iff]
  exact fun event hevent ↦ hread event (h event hevent)

theorem types_of_moves {events : List Event} (h : ∀ event ∈ events, event.move?.isSome = true)
    (types : TypeTable) : events.foldl TypeTable.record types = types := by
  induction events with
  | nil => rfl
  | cons event events ih =>
    obtain ⟨hevent, hothers⟩ := List.forall_mem_cons.1 h
    cases event with
    | entered | left => exact ih hothers
    | _ => cases hevent

section

variable (a : Analysis) (options : Options) (root : Node Tag)

/-- Declaring changes nothing but the scopes. -/
theorem Analysis.declare_analysis :
    (a.declare options root).analysis = { a with scopes := (root.declare a.scopes).scopes } := by
  have hmoves := root.declare_moves a.scopes
  have hlog : ((root.declare a.scopes).events.filter options.admits).foldl Log.record a.log =
      a.log := by
    rw [Log.foldl_record, filterMap_of_moves fun event hevent ↦
      hmoves event (List.mem_filter.1 hevent).1]
    · rfl
    · intro event hevent
      cases event <;> first | rfl | cases hevent
  have htypes : ((root.declare a.scopes).events.filter options.admits).foldl TypeTable.record
      a.types = a.types := types_of_moves (fun event hevent ↦
        hmoves event (List.mem_filter.1 hevent).1) a.types
  unfold Analysis.declare Analysis.absorb
  simp only [hlog, htypes]

theorem Analysis.infer_analysis : (a.infer options root).analysis =
    ⟨(root.check a.scopes).scopes, (root.check a.scopes).events.foldl TypeTable.record a.types,
      ((options.findings (root.check a.scopes).events).map Finding.entry).foldl Log.add a.log⟩ := by
  rw [← Options.entries_eq_map_findings, Options.entries, ← Log.foldl_record,
    ← @Options.types_filter_admits options]
  rfl

/-- An analysis answers with what the second walk leaves. -/
theorem Node.analysis_analyze : (root.analyze options).analysis =
    ⟨root.secondWalk.scopes, root.secondWalk.events.foldl TypeTable.record .empty,
      ((root.findings options).map Finding.entry).foldl Log.add .empty⟩ := by
  have hstep : (root.analyze options).analysis =
      ((Analysis.initial.declare options root).analysis.infer options root).analysis := rfl
  rw [hstep, Analysis.declare_analysis, Analysis.infer_analysis]
  rfl

theorem Node.isOk_eq_isEmpty : (root.analyze options).isOk = (root.findings options).isEmpty := by
  rw [Report.isOk, Report.log, Node.analysis_analyze, Bool.eq_iff_iff, Log.isEmpty_foldl_add,
    List.map_eq_nil_iff, List.isEmpty_iff]
  exact and_iff_right rfl

end

section

variable {R : Tag → Tag → Prop} {events events' : List Event} {options : Options}

theorem Event.Alike.admits_eq {event event' : Event} (h : event.Alike R event') :
    options.admits event = options.admits event' := by
  cases h with
  | reported _ violation => cases violation <;> rfl
  | _ => rfl

theorem alike_filter (h : List.Forall₂ (Event.Alike R) events events') :
    List.Forall₂ (Event.Alike R) (events.filter options.admits)
      (events'.filter options.admits) := by
  apply List.rel_filter _ h
  intro event event' hevent
  simp only [hevent.admits_eq]

/-- Whether two findings say the same of related nodes. -/
def Finding.Alike (R : Tag → Tag → Prop) (f f' : Finding) : Prop :=
  R f.node f'.node ∧ f.category = f'.category ∧ f.message = f'.message

/-- Whether two warnings say the same at related nodes. -/
def Warning.Alike (R : Tag → Tag → Prop) (w w' : Warning) : Prop :=
  (∃ node node', R node node' ∧ w.span = node.span ∧ w'.span = node'.span) ∧
    w.code = w'.code ∧ w.message = w'.message

theorem Event.Alike.finding? {event event' : Event} (h : event.Alike R event') :
    Option.Rel (Finding.Alike R) event.finding? event'.finding? := by
  cases h with
  | reported hnode violation => exact .some ⟨hnode, rfl, rfl⟩
  | _ => exact .none

theorem Event.Alike.warning? {event event' : Event} (h : event.Alike R event') :
    Option.Rel (Warning.Alike R) event.warning? event'.warning? := by
  cases h with
  | @warned node node' hnode caution => exact .some ⟨⟨node, node', hnode, rfl, rfl⟩, rfl, rfl⟩
  | _ => exact .none

theorem findings_of_alike (h : List.Forall₂ (Event.Alike R) events events') :
    List.Forall₂ (Finding.Alike R) (options.findings events) (options.findings events') := by
  apply List.rel_filterMap _ (alike_filter h)
  exact fun event event' hevent ↦ hevent.finding?

theorem cautions_of_alike (h : List.Forall₂ (Event.Alike R) events events') :
    List.Forall₂ (Warning.Alike R) (options.cautions events) (options.cautions events') := by
  apply List.rel_filterMap _ (alike_filter h)
  exact fun event event' hevent ↦ hevent.warning?

/-- Where related nodes have the same numbers, the types found are the same under every number. -/
theorem types_of_alike (hid : ∀ a b, R a b → a.id = b.id)
    (h : List.Forall₂ (Event.Alike R) events events') {types types' : TypeTable}
    (htypes : types.get? = types'.get?) :
    (events.foldl TypeTable.record types).get? = (events'.foldl TypeTable.record types').get? := by
  induction h generalizing types types' with
  | nil => exact htypes
  | cons hevent _ ih =>
    apply ih
    cases hevent with
    | @typed node node' hnode type =>
      funext id
      change (types.set node type).get? id = (types'.set node' type).get? id
      rw [TypeTable.get?_set, TypeTable.get?_set, hid _ _ hnode, htypes]
    | _ => exact htypes

end

section

variable {events events' : List Event} {options : Options}

theorem types_of_alike_eq (h : List.Forall₂ (Event.Alike Eq) events events') (types : TypeTable) :
    events.foldl TypeTable.record types = events'.foldl TypeTable.record types := by
  induction h generalizing types with
  | nil => rfl
  | cons hevent _ ih =>
    rw [List.foldl_cons, List.foldl_cons, ih]
    cases hevent with
    | typed hnode type => rw [hnode]
    | _ => rfl

theorem findings_of_alike_eq (h : List.Forall₂ (Event.Alike Eq) events events') :
    options.findings events = options.findings events' := by
  have hfindings : List.Forall₂ Eq (options.findings events) (options.findings events') := by
    apply (findings_of_alike h).imp
    rintro ⟨node, category, message⟩ ⟨node', category', message'⟩ ⟨rfl, rfl, rfl⟩
    rfl
  rwa [List.forall₂_eq_eq_eq] at hfindings

theorem cautions_of_alike_eq (h : List.Forall₂ (Event.Alike Eq) events events') :
    options.cautions events = options.cautions events' := by
  have hcautions : List.Forall₂ Eq (options.cautions events) (options.cautions events') := by
    apply (cautions_of_alike h).imp
    rintro ⟨span, code, message⟩ ⟨span', code', message'⟩ ⟨⟨node, _, rfl, rfl, rfl⟩, rfl, rfl⟩
    rfl
  rwa [List.forall₂_eq_eq_eq] at hcautions

end

end ScriptAnalysis
