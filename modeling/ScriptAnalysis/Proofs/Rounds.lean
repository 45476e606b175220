import ScriptAnalysis.Proofs.Findings
import ScriptAnalysis.Proofs.LogKeys
import ScriptAnalysis.Proofs.Registration
import Mathlib.Logic.Function.Iterate

/-!
# Repeated rounds over one analysis

A round declares the scopes of a program, once or more often, and then walks it for its types. The
rounds go on from what the one before left: the scopes are declared anew beside the old ones, the
same types are written over themselves, and the same entries replace themselves in the log. So every
round answers like the first.
-/

namespace ScriptAnalysis

open ScopeTable (globalId)

namespace Analysis

variable (options : Options) (root : Node Tag)

/-- Declares the scopes of a node a number of times and then walks it for its types. -/
def round (count : Nat) (a : Analysis) : Step :=
  ((fun a : Analysis ↦ (a.declare options root).analysis)^[count] a).infer options root

/-- What each of the rounds leaves, where every round goes on from the one before; for each the
number is given of how often it declares the scopes. -/
def rounds : List Nat → Analysis → List Step
  | [], _ => []
  | count :: counts, a =>
    a.round options root count :: rounds counts (a.round options root count).analysis

theorem iterate_declare (count : Nat) (a : Analysis) :
    (fun a : Analysis ↦ (a.declare options root).analysis)^[count] a =
      { a with scopes := (fun t ↦ (root.declare t).scopes)^[count] a.scopes } := by
  induction count generalizing a with
  | zero => rfl
  | succ count ih =>
    rw [Function.iterate_succ_apply, Function.iterate_succ_apply, Analysis.declare_analysis, ih]

end Analysis

/-- Some events give the node of a number one and the same entry whatever the table is, or leave its
entry as it is. -/
theorem TypeTable.foldl_record_cases (events : List Event) (id : Nat) :
    (∃ typed, ∀ types : TypeTable,
        (events.foldl TypeTable.record types).byId[id]? = some typed) ∨
      ∀ types : TypeTable, (events.foldl TypeTable.record types).byId[id]? = types.byId[id]? := by
  induction events with
  | nil => exact .inr fun _ ↦ rfl
  | cons event events ih =>
    rcases ih with ⟨typed, htyped⟩ | hkept
    · exact .inl ⟨typed, fun types ↦ htyped _⟩
    · cases event with
      | typed node type =>
        by_cases hid : node.id = id
        · refine .inl ⟨⟨node, type⟩, fun types ↦ (hkept _).trans ?_⟩
          simp [TypeTable.record, TypeTable.set, hid]
        · refine .inr fun types ↦ (hkept _).trans ?_
          simp [TypeTable.record, TypeTable.set, Std.ExtTreeMap.getElem?_insert, hid]
      | _ => exact .inr fun types ↦ hkept _

theorem TypeTable.foldl_record_self (events : List Event) (types : TypeTable) :
    events.foldl TypeTable.record (events.foldl TypeTable.record types) =
      events.foldl TypeTable.record types := by
  apply congrArg TypeTable.mk
  apply Std.ExtTreeMap.ext_getElem?
  intro id
  rcases TypeTable.foldl_record_cases events id with ⟨typed, htyped⟩ | hkept
  · rw [htyped, htyped]
  · rw [hkept]

/-- Whether a step leaves and answers what an analysis from the beginning does. -/
structure Analysis.Step.Repeats (options : Options) (root : Node Tag) (step : Analysis.Step) :
    Prop where
  fault : step.fault = (root.analyze options).fault
  outline : step.analysis.scopes.outline globalId = (root.analyze options).scopes.outline globalId
  types : step.analysis.types = (root.analyze options).types
  log : step.analysis.log = (root.analyze options).log
  warnings : step.warnings = (root.analyze options).warnings

/-- Tables that rounds may begin with, and tables that are ready for the second walk: declaring
makes them ready, and a walk over a table that is ready goes as from the beginning. -/
structure Node.Renews (root : Node Tag) (Begins Ready : ScopeTable → Prop) : Prop where
  first : ∀ t, Begins t → Ready (root.declare t).scopes
  again : ∀ t, Ready t → Ready (root.declare t).scopes
  check : ∀ t, Ready t → (root.check t).Alike Eq root.secondWalk
  outline : ∀ t, Ready t →
    (root.check t).scopes.outline globalId = root.secondWalk.scopes.outline globalId
  next : ∀ t, Ready t → Begins (root.check t).scopes

section

variable {options : Options} {root : Node Tag} {Begins Ready : ScopeTable → Prop}

theorem Node.Renews.iterate (h : root.Renews Begins Ready) {t : ScopeTable} (ht : Begins t)
    (count : Nat) : Ready ((fun t ↦ (root.declare t).scopes)^[count + 1] t) := by
  induction count with
  | zero => exact h.first t ht
  | succ count ih =>
    rw [Function.iterate_succ_apply']
    exact h.again _ ih

theorem Node.Renews.round (h : root.Renews Begins Ready) {a : Analysis} (hscopes : Begins a.scopes)
    (htypes : a.types = .empty ∨ a.types = (root.analyze options).types)
    (hlog : a.log = .empty ∨ a.log = (root.analyze options).log) {count : Nat}
    (hcount : 0 < count) :
    (a.round options root count).Repeats options root ∧
      Begins (a.round options root count).analysis.scopes := by
  obtain ⟨earlier, rfl⟩ := Nat.exists_eq_succ_of_ne_zero (Nat.ne_of_gt hcount)
  have hready := h.iterate hscopes earlier
  have halike := h.check _ hready
  have hround : a.round options root (earlier + 1) =
      Analysis.infer { a with scopes := (fun t ↦ (root.declare t).scopes)^[earlier + 1] a.scopes }
        options root := by
    rw [Analysis.round, Analysis.iterate_declare]
  rw [hround]
  refine ⟨⟨halike.fault, h.outline _ hready, ?_, ?_, cautions_of_alike_eq halike.events⟩,
    h.next _ hready⟩
  · rw [Report.types, Node.analysis_analyze] at htypes ⊢
    rw [Analysis.infer_analysis]
    refine (types_of_alike_eq halike.events a.types).trans ?_
    rcases htypes with htypes | htypes
    · rw [htypes]
    · rw [htypes, TypeTable.foldl_record_self]
  · rw [Report.log, Node.analysis_analyze] at hlog ⊢
    rw [Analysis.infer_analysis]
    simp only
    rw [findings_of_alike_eq halike.events]
    rcases hlog with hlog | hlog
    · rw [hlog]
      rfl
    · rw [hlog]
      exact Log.foldl_add_self _

theorem Node.Renews.rounds (h : root.Renews Begins Ready) {counts : List Nat}
    (hcounts : ∀ count ∈ counts, 0 < count) {a : Analysis} (hscopes : Begins a.scopes)
    (htypes : a.types = .empty ∨ a.types = (root.analyze options).types)
    (hlog : a.log = .empty ∨ a.log = (root.analyze options).log) :
    ∀ step ∈ a.rounds options root counts, step.Repeats options root := by
  induction counts generalizing a with
  | nil => simp [Analysis.rounds]
  | cons count counts ih =>
    obtain ⟨hcount, hothers⟩ := List.forall_mem_cons.1 hcounts
    obtain ⟨hrepeats, hnext⟩ := h.round hscopes htypes hlog hcount
    rw [Analysis.rounds, List.forall_mem_cons]
    exact ⟨hrepeats, ih hothers hnext (.inr hrepeats.types) (.inr hrepeats.log)⟩

end

/-- Whether a table is as the first walk over a program leaves it, but for what is in the scopes of
its functions and its main part. -/
def Script.Settled (s : Script Tag) (t : ScopeTable) : Prop :=
  ∃ g g', ScopeTable.Twins (fun name ↦ (s.declare .initial).scopes.under name = none) g g' t
    (s.declare .initial).scopes

/-- Whether a table shows the same as the first walk over a program leaves. -/
def Script.Ready (s : Script Tag) (t : ScopeTable) : Prop :=
  ∃ g g', ScopeTable.Twins (fun _ ↦ True) g g' t (s.declare .initial).scopes

section

variable {s : Script Tag} {t t' : ScopeTable} {g g' : Scope}

theorem ScopeTable.Flat.unique (h : t.Flat g) (h' : t.Flat g') : g = g' :=
  Option.some.inj (h.outer.symm.trans h'.outer)

/-- Declaring again the functions of a program that was declared before makes their scopes anew. -/
theorem Script.Settled.declare (h : s.Settled t) : s.Ready (s.declare t).scopes := by
  obtain ⟨g, g', htwins⟩ := h
  obtain ⟨g₁, hflat, hbare, hunder⟩ := s.declare_flat htwins.flat
  obtain ⟨g₂, hflat', hbare', hunder'⟩ := s.declare_flat ScopeTable.flat_initial
  obtain rfl : g' = g₂ := htwins.flat'.unique hflat'
  refine ⟨g₁, g', hflat, hflat', ?_, fun name _ ↦ ?_⟩
  · rw [hbare, htwins.bare, hbare', Scope.bindAll_idem]
  · rw [hunder, hunder', ScopeTable.under_initial]
    by_cases hnone : (s.declare .initial).scopes.under name = none
    · rw [htwins.under name hnone, hnone]
    · rw [hunder', ScopeTable.under_initial] at hnone
      unfold Script.scopeUnder at hnone ⊢
      split
      · rfl
      · next hmain =>
        rw [if_neg hmain] at hnone
        apply FuncDef.lastNamed_of_mem
        by_contra hmem
        exact hnone (FuncDef.lastNamed_of_notMem hmem none)

theorem Script.Ready.settled (h : s.Ready t) : s.Settled t := by
  obtain ⟨g, g', htwins⟩ := h
  exact ⟨g, g', htwins.mono fun _ _ ↦ trivial⟩

theorem Script.check_self_twins (h : ScopeTable.Twins (fun _ ↦ True) g g' t t') (s : Script Tag) :
    (s.check t).Twins Eq (fun _ ↦ True) g g' (s.check t') := by
  obtain ⟨p, hfst, hsnd, hlinked⟩ := s.exists_pairs (f := id) (g := id) s rfl
  have hp : Linked (SameWords Eq) (p.walk fun _ ↦ false) :=
    hlinked.mono fun a b hab ↦ ⟨hab, congrArg Tag.text hab⟩
  have hcheck := Script.check_twins h p hp
  rwa [hfst, hsnd] at hcheck

/-- Walking over the scopes of the functions registers no scope. -/
theorem Script.Ready.check (h : s.Ready t) : s.Settled (s.check t).scopes := by
  obtain ⟨g, g', htwins⟩ := h
  have hflat := (Script.check_self_twins htwins s).scopes.flat
  refine ⟨g, g', hflat, htwins.flat', htwins.bare, fun name hnone ↦ ?_⟩
  have hunder := htwins.under name trivial
  rw [hnone] at hunder ⊢
  have hmap := htwins.flat.map_under name
  rw [hunder, Option.map_none, Option.map_eq_none_iff] at hmap
  rw [hflat.under_eq, hmap]
  rfl

theorem Script.renews (s : Script Tag) :
    (Node.script s).Renews (fun t ↦ t = .initial ∨ s.Settled t) s.Ready := by
  obtain ⟨g, hflat, -⟩ := s.declare_flat ScopeTable.flat_initial
  refine ⟨?_, ?_, ?_, ?_, ?_⟩
  · rintro t (rfl | hsettled)
    · exact ⟨g, g, hflat, hflat, rfl, fun _ _ ↦ rfl⟩
    · exact hsettled.declare
  · intro t hready
    exact hready.settled.declare
  · rintro t ⟨g, g', htwins⟩
    exact (Script.check_self_twins htwins s).toAlike
  · rintro t ⟨g, g', htwins⟩
    exact (Script.check_self_twins htwins s).scopes.outline_eq
  · intro t hready
    exact .inr hready.check

theorem Expr.infer_self_alike (env : Env) (e : Expr Tag) :
    List.Forall₂ (Event.Alike Eq) (e.infer env).events (e.infer env).events := by
  obtain ⟨p, hfst, hsnd, hlinked⟩ := e.exists_pairs (f := id) (g := id) e rfl
  have hinfer := p.infer_alike env (hlinked.mono fun a b hab ↦ (hab : a = b))
  rw [hfst, hsnd] at hinfer
  exact hinfer.events

theorem Expr.renews (e : Expr Tag) : (Node.expr e).Renews (· = .initial) (· = .initial) := by
  refine ⟨fun t ht ↦ ht, fun t ht ↦ ht, ?_, ?_, fun t ht ↦ ht⟩
  · rintro t rfl
    exact ⟨e.infer_self_alike _, rfl⟩
  · rintro t rfl
    rfl

end

/-- For every source that can be read, rounds over one and the same analysis all end alike. Each may
declare the scopes any positive number of times before it walks for the types. After every round the
outline of the global scope, the entries of the log and their number, and the table of types are the
same, namely those of a single analysis, and every round returns the same warnings. -/
theorem rounds_leave_the_same {source : String} {root : Node Tag} (h : root.ReadFrom source)
    (options : Options) (counts : List Nat) (hcounts : ∀ count ∈ counts, 0 < count) :
    ∀ step ∈ Analysis.initial.rounds options root counts,
      step.fault = none ∧
      step.analysis.scopes.outline globalId = (root.analyze options).scopes.outline globalId ∧
      step.analysis.log.entries = (root.analyze options).log.entries ∧
      step.analysis.log.total = (root.analyze options).log.total ∧
      step.analysis.types = (root.analyze options).types ∧
      step.warnings = (root.analyze options).warnings := by
  have hrepeats : ∀ step ∈ Analysis.initial.rounds options root counts,
      step.Repeats options root := by
    cases h with
    | @script s h => exact s.renews.rounds hcounts (.inl rfl) (.inl rfl) (.inl rfl)
    | @expr e h => exact e.renews.rounds hcounts rfl (.inl rfl) (.inl rfl)
  have hended : (root.analyze options).fault = none := by
    cases h with
    | script h =>
      obtain ⟨b, mid, events, htour⟩ := Script.exists_tour h
      exact congrArg Walk.fault htour.check
    | expr h => rfl
  intro step hstep
  have hsame := hrepeats step hstep
  refine ⟨hsame.fault.trans hended, hsame.outline, ?_, ?_, hsame.types, hsame.warnings⟩
  · rw [hsame.log]
  · rw [hsame.log]

/-- Two rounds over a program with two definitions of one name and with a report, the first of which
declares the scopes twice. -/
theorem rounds_leave_the_same_twice :
    ∃ s, Script.parse "func f(){}func f(a:Int){x=a}f(1)" = .ok s ∧
      ∃ first second, Analysis.initial.rounds {} (.script s) [2, 1] = [first, second] ∧
        first.analysis.types = second.analysis.types ∧
        first.analysis.log.entries = second.analysis.log.entries ∧
        first.analysis.scopes.outline globalId = second.analysis.scopes.outline globalId ∧
        first.warnings = second.warnings := by
  obtain ⟨s, hs⟩ : ∃ s, Script.parse "func f(){}func f(a:Int){x=a}f(1)" = .ok s := by
    refine ⟨?_, ?parse⟩
    case parse =>
      cbv
      rfl
  have hsame := rounds_leave_the_same (.script hs) {} [2, 1] (by decide)
  obtain ⟨-, houtline, hentries, -, htypes, hwarnings⟩ := hsame _ List.mem_cons_self
  obtain ⟨-, houtline', hentries', -, htypes', hwarnings'⟩ :=
    hsame _ (List.mem_cons_of_mem _ List.mem_cons_self)
  exact ⟨s, hs, _, _, rfl, htypes.trans htypes'.symm, hentries.trans hentries'.symm,
    houtline.trans houtline'.symm, hwarnings.trans hwarnings'.symm⟩

end ScriptAnalysis
