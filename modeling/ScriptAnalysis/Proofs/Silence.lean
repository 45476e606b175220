import ScriptAnalysis.Analysis.Report
import ScriptAnalysis.Proofs.Ordering

/-!
# Analyses that report nothing

A report says that a program is valid exactly if no event of the second walk that counts is the
report of a violation: entries of the log are replaced, but never taken out.
-/

namespace ScriptAnalysis

theorem Log.isEmpty_add (log : Log) (e : Entry) : (log.add e).isEmpty = false := by
  rw [Log.isEmpty, Log.add]
  split
  · next h =>
    cases hentries : log.entries with
    | nil => simp [hentries] at h
    | cons first others => rfl
  · exact List.isEmpty_eq_false_iff.2 (Ordered.insert_ne_nil _ _ _)

theorem Log.isEmpty_record (log : Log) (event : Event) :
    (log.record event).isEmpty = true ↔ log.isEmpty = true ∧ event.entry? = none := by
  rw [Log.record]
  cases event.entry? with
  | none => simp
  | some e => simp [Log.isEmpty_add]

theorem Log.isEmpty_foldl_record (log : Log) (events : List Event) :
    (events.foldl Log.record log).isEmpty = true ↔
      log.isEmpty = true ∧ ∀ event ∈ events, event.entry? = none := by
  induction events generalizing log with
  | nil => simp
  | cons event events ih =>
    rw [List.foldl_cons, ih, Log.isEmpty_record, List.forall_mem_cons, and_assoc]

namespace Options

variable {options : Options} {events events' : List Event}

/-- Whether no event that counts reports a violation. -/
def Silent (options : Options) (events : List Event) : Prop :=
  ∀ event ∈ events, options.admits event = true → event.entry? = none

@[simp] theorem silent_nil : options.Silent [] := by simp [Silent]

@[simp] theorem silent_cons {event : Event} :
    options.Silent (event :: events) ↔
      (options.admits event = true → event.entry? = none) ∧ options.Silent events := by
  simp [Silent]

@[simp] theorem silent_append :
    options.Silent (events ++ events') ↔ options.Silent events ∧ options.Silent events' := by
  simp [Silent, or_imp, forall_and]

theorem silent_of_entry?_eq_none (h : ∀ event ∈ events, event.entry? = none) :
    options.Silent events := fun event hevent _ ↦ h event hevent

/-- Only parentheses may go unreported. -/
theorem silent_verdict {node : Tag} {violation : Option Violation}
    (h : violation ≠ some .parenthesizedError) :
    options.Silent (verdict node violation) ↔ violation = none := by
  cases violation with
  | none => simp [verdict]
  | some violation => cases violation <;> simp_all [verdict, Options.admits, Event.entry?]

end Options

theorem Walk.mem_andThen {w : Walk} {next : ScopeTable → Walk} {event : Event}
    (h : event ∈ (w.andThen next).events) : event ∈ w.events ∨ event ∈ (next w.scopes).events := by
  unfold Walk.andThen at h
  split at h
  · exact .inl h
  · exact List.mem_append.1 h

theorem FuncDef.declareAll_entry? (t : ScopeTable) (fs : List (FuncDef Tag)) :
    ∀ event ∈ (FuncDef.declareAll t fs).events, event.entry? = none := by
  induction fs generalizing t with
  | nil => simp [FuncDef.declareAll]
  | cons f fs ih =>
    intro event hevent
    rcases Walk.mem_andThen hevent with hfirst | hlater
    · rcases (by simpa [FuncDef.declare] using hfirst) with rfl | rfl <;> rfl
    · exact ih _ event hlater

theorem Script.declare_entry? (t : ScopeTable) (s : Script Tag) :
    ∀ event ∈ (s.declare t).events, event.entry? = none := by
  intro event hevent
  rcases Walk.mem_andThen hevent with hfuncs | hmain
  · exact FuncDef.declareAll_entry? t s.funcs event hfuncs
  · cases hm : s.main with
    | none => simp [hm] at hmain
    | some main =>
      rcases (by simpa [hm, Body.declareMain] using hmain) with rfl | rfl <;> rfl

/-- The second walk begins with the scopes of the first, and the first reports nothing. -/
theorem Script.isOk_analyze_iff (options : Options) (s : Script Tag) :
    (s.analyze options).isOk = true ↔
      options.Silent (s.check (s.declare .initial).scopes).events := by
  have hlog : (s.analyze options).log =
      ((s.check (s.declare .initial).scopes).events.filter options.admits).foldl Log.record
        (((s.declare .initial).events.filter options.admits).foldl Log.record .empty) := rfl
  have hfirst : (((s.declare .initial).events.filter options.admits).foldl Log.record
      .empty).isEmpty = true := by
    rw [Log.isEmpty_foldl_record]
    refine ⟨rfl, fun event hevent ↦ ?_⟩
    exact s.declare_entry? .initial event (List.mem_filter.1 hevent).1
  rw [Report.isOk, hlog, Log.isEmpty_foldl_record]
  simp only [hfirst, true_and, List.mem_filter, and_imp]
  rfl

theorem Script.fault_analyze (options : Options) (s : Script Tag) :
    (s.analyze options).fault = (s.check (s.declare .initial).scopes).fault := rfl

end ScriptAnalysis
