import ScriptAnalysis.Proofs.LogEntries
import ScriptAnalysis.Proofs.NodeTexts
import ScriptAnalysis.Scope.Outline

/-!
# What the options change

Options decide which events count, and events that are left out by them are neither types nor
changes of a scope. That parentheses hold an error is reported of parentheses only, and these share
their text with no other node. So without such reports the log is the log with them, less their
entries. A program is valid either way, since an error inside parentheses was reported before.
-/

namespace ScriptAnalysis

open ScopeTable (globalId mainName)

/-- Whether what is reported is about some nodes, and of parentheses it is that they hold an
error. -/
def Fits (nodes : List (Node Tag)) (events : List Event) : Prop :=
  ∀ tag violation, .reported tag violation ∈ events →
    ∃ node ∈ nodes, node.note = tag ∧ (node.isParens = true ↔ violation = .parenthesizedError)

namespace Fits

variable {nodes nodes' : List (Node Tag)} {events events' : List Event} {node : Node Tag}

theorem of_entry?_eq_none (h : ∀ event ∈ events, event.entry? = none) : Fits nodes events := by
  intro tag violation hmem
  cases h _ hmem

theorem nil : Fits nodes [] := of_entry?_eq_none (by simp)

theorem mono (h : Fits nodes events) (hsub : ∀ node ∈ nodes, node ∈ nodes') :
    Fits nodes' events := by
  intro tag violation hmem
  obtain ⟨node, hnode, hfits⟩ := h tag violation hmem
  exact ⟨node, hsub node hnode, hfits⟩

theorem below (h : Fits nodes events) (node : Node Tag) : Fits (node :: nodes) events :=
  h.mono fun _ hn ↦ List.mem_cons_of_mem node hn

theorem follow (h : Fits nodes events) (h' : Fits nodes events') :
    Fits nodes (events ++ events') := by
  intro tag violation hmem
  rcases List.mem_append.1 hmem with hmem | hmem
  · exact h tag violation hmem
  · exact h' tag violation hmem

theorem append (h : Fits nodes events) (h' : Fits nodes' events') :
    Fits (nodes ++ nodes') (events ++ events') :=
  (h.mono fun _ hn ↦ List.mem_append_left nodes' hn).follow
    (h'.mono fun _ hn ↦ List.mem_append_right nodes hn)

theorem reported {violation : Violation} (hnode : node ∈ nodes)
    (h : node.isParens = true ↔ violation = .parenthesizedError) :
    Fits nodes [.reported node.note violation] := by
  intro tag violation' hmem
  cases List.mem_singleton.1 hmem
  exact ⟨node, hnode, rfl, h⟩

/-- Other nodes than parentheses report something else. -/
theorem verdict {violation : Option Violation} (hnode : node ∈ nodes)
    (hplain : node.isParens = false) (h : violation ≠ some .parenthesizedError) :
    Fits nodes (verdict node.note violation) := by
  cases violation with
  | none => exact nil
  | some violation =>
    apply reported hnode
    rw [hplain]
    exact iff_of_false Bool.false_ne_true fun heq ↦ h (congrArg some heq)

theorem conclude {r : Except Violation Ty} (h : Fits nodes events) (node : Node Tag)
    (hr : ∀ violation, r = .error violation →
      (node.isParens = true ↔ violation = .parenthesizedError)) :
    Fits (node :: nodes) (Inference.conclude node.note events r).events := by
  cases r with
  | ok type => exact (h.below node).follow (of_entry?_eq_none (by simp [Event.entry?]))
  | error violation =>
    have hreported : Fits (node :: nodes) [.reported node.note violation] :=
      reported List.mem_cons_self (hr violation rfl)
    have htyped : Fits (node :: nodes) [.typed node.note .error] :=
      of_entry?_eq_none (by simp [Event.entry?])
    exact (h.below node).follow (hreported.follow htyped)

theorem around (h : Fits nodes events) (pass : Pass) (name : String) (scope : ScopeId) :
    Fits nodes (pass.around name scope events) := by
  have hentered : Fits nodes [.entered pass name scope] :=
    of_entry?_eq_none (by simp [Event.entry?])
  have hleft : Fits nodes [.left pass name scope] := of_entry?_eq_none (by simp [Event.entry?])
  exact (hentered.follow h).follow hleft

end Fits

/-- Parentheses report that they hold an error, and nothing else does. -/
theorem Expr.Reports.isParens_iff {e : Expr Tag} {violation : Violation}
    (h : e.Reports violation) :
    (Node.expr e).isParens = true ↔ violation = .parenthesizedError := by
  cases h <;> simp [Node.isParens]

theorem Infers.fits {env : Env} {nodes : List (Node Tag)} {events : List Event}
    (h : Infers env nodes events) : Fits nodes events := by
  induction h with
  | nil => exact .nil
  | append _ _ ih ih' => exact ih.append ih'
  | @read note name type _ =>
    have hread : Fits [] [.read name] := .of_entry?_eq_none (by simp [Event.entry?])
    exact hread.conclude (.expr (.ident note name)) (by simp)
  | @unread note name _ =>
    exact Fits.nil.conclude (.expr (.ident note name)) (by simp [Node.isParens])
  | @conclude e r _ _ _ hr _ ih =>
    exact ih.conclude (.expr e) fun violation hviolation ↦ (hr violation hviolation).isParens_iff

theorem Flow.entry?_warning (flow : Flow) (node : Tag) :
    ∀ event ∈ flow.warning node, event.entry? = none := by
  unfold Flow.warning
  split <;> simp [Event.entry?]

theorem Checks.fits {setting : Setting} {nodes : List (Node Tag)} {events : List Event}
    (h : Checks setting nodes events) : Fits nodes events := by
  induction h with
  | infer h => exact h.fits
  | append _ _ ih ih' => exact ih.append ih'
  | @judge s violation _ _ hviolation _ ih =>
    have hne : violation ≠ some .parenthesizedError := by
      intro hparens
      cases hviolation _ hparens
    exact (ih.below (.stmt s)).follow (@Fits.verdict _ (.stmt s) _ List.mem_cons_self rfl hne)
  | warn flow note _ ih => exact (Fits.of_entry?_eq_none (flow.entry?_warning note)).follow ih
  | block b _ ih => exact ih.below (.block b)

theorem Introduces.fits {env : Env} {d : VarDecl Tag} {nodes : List (Node Tag)}
    {events : List Event} (h : Introduces env d nodes events) : Fits nodes events := by
  have hreported {nodes : List (Node Tag)} {violation : Violation}
      (hne : violation ≠ .parenthesizedError) :
      Fits (.decl d :: nodes) [.reported d.note violation] :=
    @Fits.reported _ (.decl d) _ List.mem_cons_self (iff_of_false Bool.false_ne_true hne)
  cases h with
  | bound h => exact h.fits.below (.decl d)
  | duplicate h => exact (h.fits.below (.decl d)).follow (hreported (by simp))
  | @mistyped type nodes events h =>
    have htyped : Fits (.decl d :: nodes) [.typed d.note .error] :=
      .of_entry?_eq_none (by simp [Event.entry?])
    exact (h.fits.below (.decl d)).follow (htyped.follow (hreported (by simp)))

section

variable {t : ScopeTable} {id : ScopeId}

theorem VarDecl.fits_checkAll (ds : List (VarDecl Tag)) :
    Fits (ds.flatMap (VarDecl.walk fun _ ↦ false)) (VarDecl.checkAll t id ds).events := by
  induction ds generalizing t with
  | nil => exact .nil
  | cons d ds ih => exact (d.introduces_check t id).fits.append ih

theorem Local.entry?_warning (l : Local) : ∀ event ∈ l.warning t id, event.entry? = none := by
  unfold Local.warning
  simp only
  split <;> simp [Event.entry?]

theorem Fits.closeLocals {nodes : List (Node Tag)} {events : List Event} (h : Fits nodes events)
    (locals : List Local) : Fits nodes (closeLocals t id events locals).events := by
  unfold ScriptAnalysis.closeLocals
  simp only
  split
  · exact h
  · apply h.follow
    apply Fits.of_entry?_eq_none
    intro event hevent
    obtain ⟨l, -, hl⟩ := List.mem_flatMap.1 hevent
    exact l.entry?_warning event hl

theorem Body.fits_check (body : Body Tag) {params : List Local} {closing : List Event}
    (hclosing : ∀ event ∈ closing, event.entry? = none) :
    Fits (body.walkParts fun _ ↦ false) (body.check t id params closing).events := by
  have hdecls := (@VarDecl.fits_checkAll t id body.vars.decls).below (.vars body.vars)
  have hblock := body.block.checks_check
    ((VarDecl.checkAll t id body.vars.decls).scopes.setting id) .live
  exact ((hdecls.append hblock.fits).follow (.of_entry?_eq_none hclosing)).closeLocals _

end

theorem Param.fits_duplicates {nodes : List (Node Tag)} {function : String} {seen : List String}
    {ps : List (Param Tag)} (h : ∀ p ∈ ps, .param p ∈ nodes) :
    Fits nodes (Param.duplicates function seen ps) := by
  induction ps generalizing seen with
  | nil => exact .nil
  | cons p ps ih =>
    rw [List.forall_mem_cons] at h
    apply Fits.follow _ (ih h.2)
    apply @Fits.verdict _ (.param p) _ h.1 rfl
    split <;> simp

theorem FuncDef.fits_reports (f : FuncDef Tag) (seen : List String) :
    Fits (f.walk fun _ ↦ false) (f.reports seen) := by
  apply Fits.follow
  · apply @Fits.verdict _ (.func f) _ List.mem_cons_self rfl
    split <;> simp
  · apply Param.fits_duplicates
    intro p hp
    apply List.mem_cons_of_mem
    apply List.mem_append_left
    exact List.mem_flatMap.2 ⟨p, hp, List.mem_cons_self⟩

theorem FuncDef.fits_checkBody (f : FuncDef Tag) (t : ScopeTable) (id : ScopeId) :
    Fits (f.walk fun _ ↦ false) (f.checkBody t id).events := by
  have hclosing : ∀ event ∈ f.fallThrough (t.setting id).returns, event.entry? = none := by
    unfold FuncDef.fallThrough
    split <;> simp [Event.entry?]
  apply Fits.mono (f.body.fits_check hclosing)
  intro node hnode
  exact List.mem_cons_of_mem _ (List.mem_append_right _ (List.mem_cons_of_mem _ hnode))

theorem FuncDef.Run.fits {g : Scope} {t t' : ScopeTable} {seen : List String} {next : ScopeId}
    {fs : List (FuncDef Tag)} {events : List Event} (h : FuncDef.Run g t seen next fs t' events) :
    Fits (fs.flatMap (FuncDef.walk fun _ ↦ false)) events := by
  induction h with
  | nil => exact .nil
  | @shadowed t t' seen next f fs events hname later ih =>
    apply Fits.append _ ih
    exact (f.fits_reports seen).follow (.of_entry?_eq_none (by simp [Event.entry?]))
  | @last t t' seen next f fs events hname hg hown later ih =>
    apply Fits.append _ ih
    exact (f.fits_reports seen).follow ((f.fits_checkBody t next).around _ _ _)

theorem Node.ReadFrom.fits_secondWalk {source : String} {root : Node Tag}
    (h : root.ReadFrom source) : Fits root.all root.secondWalk.events := by
  cases h with
  | @script s h =>
    obtain ⟨b, mid, events, htour⟩ := Script.exists_tour h
    have hmain : Fits (b.walkParts fun _ ↦ false)
        (b.check mid (1 + s.funcs.length) [] []).events := b.fits_check (by simp)
    have hall := (htour.run.fits.append
      ((hmain.below (.main b)).around .inferring mainName (1 + s.funcs.length))).below (.script s)
    rw [htour.check, Node.all, Node.walk, Script.walk, htour.main]
    apply Fits.mono hall
    simp [Node.visit]
  | @expr e h => exact (e.infers_infer _).fits

/-- Whether no text that begins with `text` is `whole`. -/
def Departs (whole text : String) : Prop := ∀ more, text ++ more ≠ whole

namespace Departs

variable {whole text : String}

theorem append (h : Departs whole text) (more : String) : Departs whole (text ++ more) := by
  intro rest
  rw [String.append_assoc]
  exact h (more ++ rest)

theorem of_isPrefixOf (h : text.toList.isPrefixOf whole.toList = false) : Departs whole text := by
  rintro more rfl
  rw [String.toList_append, ← Bool.not_eq_true, List.isPrefixOf_iff_prefix] at h
  exact h (List.prefix_append _ _)

theorem ne (h : Departs whole text) : text ≠ whole := by
  rw [← String.append_empty (s := text)]
  exact h ""

end Departs

/-- The message that parentheses hold an error is like no other. -/
theorem Violation.message_eq_iff {violation : Violation} :
    violation.message = Violation.parenthesizedError.message ↔
      violation = .parenthesizedError := by
  constructor
  · intro h
    cases violation with
    | parenthesizedError => rfl
    | _ =>
      apply absurd h
      apply Departs.ne
      repeat apply Departs.append
      exact Departs.of_isPrefixOf (by decide)
  · rintro rfl
    rfl

/-- Whether an entry says something else than that parentheses hold an error. -/
def Entry.isPlain (entry : Entry) : Bool :=
  entry.message ≠ Violation.parenthesizedError.message

/-! ## What counts under options -/

namespace Options

/-- The entries for the reports that count. -/
def entries (options : Options) (events : List Event) : List Entry :=
  (events.filter options.admits).filterMap Event.entry?

variable {options : Options} {events : List Event}

theorem admits_reported (options : Options) (tag : Tag) (violation : Violation) :
    options.admits (.reported tag violation) =
      (options.parenReports || decide (violation ≠ .parenthesizedError)) := by
  cases violation <;> simp [Options.admits]

theorem mem_entries {entry : Entry} (h : entry ∈ options.entries events) :
    ∃ tag violation, .reported tag violation ∈ events ∧
      entry = ⟨tag.span, tag.text, violation.category, violation.message⟩ := by
  obtain ⟨event, hevent, hentry⟩ := List.mem_filterMap.1 h
  cases event with
  | reported tag violation =>
    cases hentry
    exact ⟨tag, violation, (List.mem_filter.1 hevent).1, rfl⟩
  | _ => cases hentry

theorem entries_eq_nil_iff : options.entries events = [] ↔ options.Silent events := by
  simp only [entries, List.filterMap_eq_nil_iff, List.mem_filter, and_imp]
  rfl

theorem types_filter_admits (types : TypeTable) :
    (events.filter options.admits).foldl TypeTable.record types =
      events.foldl TypeTable.record types := by
  induction events generalizing types with
  | nil => rfl
  | cons event events ih =>
    rw [List.filter_cons]
    split
    · exact ih _
    · next hadmits =>
      rw [ih, List.foldl_cons]
      cases event with
      | reported _ violation => rfl
      | warned => rfl
      | _ => exact absurd rfl hadmits

theorem warnings_filter_admits (hwarnings : options.warnings = true) :
    (events.filter options.admits).filterMap Event.warning? =
      events.filterMap Event.warning? := by
  rw [List.filterMap_filter]
  congr 1
  funext event
  cases event with
  | warned => simp [Options.admits, hwarnings]
  | reported => exact ite_self none
  | _ => rfl

theorem warnings_filter_admits_of_off (hwarnings : options.warnings = false) :
    (events.filter options.admits).filterMap Event.warning? = [] := by
  rw [List.filterMap_eq_nil_iff]
  intro event hevent
  cases event with
  | warned => simp [Options.admits, hwarnings] at hevent
  | _ => rfl

/-- Whether warnings count makes no difference to the entries. -/
theorem entries_eq (parenReports warnings warnings' : Bool) :
    entries ⟨parenReports, warnings⟩ events = entries ⟨parenReports, warnings'⟩ events := by
  unfold entries
  rw [List.filterMap_filter, List.filterMap_filter]
  congr 1
  funext event
  cases event with
  | warned => simp [Event.entry?]
  | reported => simp only [admits_reported]
  | _ => rfl

/-- Without reports about parentheses the entries are those that say something else. -/
theorem entries_off (warnings : Bool) :
    entries ⟨false, warnings⟩ events = (entries ⟨true, warnings⟩ events).filter Entry.isPlain := by
  unfold entries
  rw [List.filterMap_filter, List.filterMap_filter, List.filter_filterMap]
  congr 1
  funext event
  cases event with
  | reported tag violation =>
    by_cases hparens : violation = .parenthesizedError
    · simp [admits_reported, hparens, Event.entry?, Entry.isPlain, Option.filter]
    · simp [admits_reported, hparens, Event.entry?, Entry.isPlain, Option.filter,
        Violation.message_eq_iff]
  | warned => simp [Event.entry?]
  | _ => rfl

end Options

namespace Node.ReadFrom

variable {source : String} {root : Node Tag}

theorem entry?_firstWalk (h : root.ReadFrom source) :
    ∀ event ∈ root.firstWalk.events, event.entry? = none := by
  cases h with
  | @script s h => exact s.declare_entry? .initial
  | expr h => simp [Node.firstWalk, Node.declare]

theorem log_analyze (h : root.ReadFrom source) (options : Options) :
    (root.analyze options).log =
      (options.entries root.secondWalk.events).foldl Log.add .empty := by
  have hlog : (root.analyze options).log =
      (root.secondWalk.events.filter options.admits).foldl Log.record
        ((root.firstWalk.events.filter options.admits).foldl Log.record .empty) := rfl
  have hfirst : (root.firstWalk.events.filter options.admits).filterMap Event.entry? = [] := by
    rw [List.filterMap_eq_nil_iff]
    intro event hevent
    exact h.entry?_firstWalk event (List.mem_filter.1 hevent).1
  rw [hlog, Log.foldl_record, Log.foldl_record, hfirst]
  rfl

/-- Entries under one key say both that parentheses hold an error, or neither does. -/
theorem isPlain_eq_of_sameKey (h : root.ReadFrom source) {options : Options} {a b : Entry}
    (ha : a ∈ options.entries root.secondWalk.events)
    (hb : b ∈ options.entries root.secondWalk.events) (hkey : a.sameKey b = true) :
    a.isPlain = b.isPlain := by
  obtain ⟨tag, violation, hmem, rfl⟩ := Options.mem_entries ha
  obtain ⟨tag', violation', hmem', rfl⟩ := Options.mem_entries hb
  obtain ⟨node, hnode, rfl, hparens⟩ := h.fits_secondWalk tag violation hmem
  obtain ⟨node', hnode', rfl, hparens'⟩ := h.fits_secondWalk tag' violation' hmem'
  have htext : node.note.text = node'.note.text := (Entry.sameKey_iff.1 hkey).2
  have hsame : violation = .parenthesizedError ↔ violation' = .parenthesizedError := by
    rw [← hparens, ← hparens', h.isParens_eq hnode hnode' htext]
  simp only [Entry.isPlain, ne_eq, Violation.message_eq_iff, hsame]

theorem entries_log_analyze (h : root.ReadFrom source) (warnings : Bool) :
    (root.analyze ⟨false, warnings⟩).log.entries =
      (root.analyze ⟨true, warnings⟩).log.entries.filter Entry.isPlain := by
  have hrestrict := Log.restrict_foldl_add Log.sorted_empty fun a ha b hb ↦
    @isPlain_eq_of_sameKey _ _ h ⟨true, warnings⟩ a b ha hb
  rw [h.log_analyze, h.log_analyze, Options.entries_off]
  exact congrArg Log.entries hrestrict.symm

theorem isOk_analyze_iff (h : root.ReadFrom source) (options : Options) :
    (root.analyze options).isOk = true ↔ options.Silent root.secondWalk.events := by
  rw [Report.isOk, h.log_analyze, Log.isEmpty_foldl_add, Options.entries_eq_nil_iff]
  exact and_iff_right rfl

/-- What is reported at all is reported under any options. -/
theorem silent_iff (h : root.ReadFrom source) (options options' : Options) :
    options.Silent root.secondWalk.events ↔ options'.Silent root.secondWalk.events := by
  cases h with
  | @script s h =>
    have hwritten := Script.written_of_parse h
    have hsilent (options : Options) :=
      (@Script.LaidOut.check options _ s s.declare_laidOut hwritten).2
    exact (hsilent options).trans (hsilent options').symm
  | @expr e h =>
    have hsound : (ScopeTable.initial.env globalId).Sound := by
      intro name signature htype
      rw [ScopeTable.env_initial] at htype
      cases htype
    have hreports (options : Options) := @Expr.error_iff_reports options _ hsound e
    exact not_iff_not.1 ((hreports options).symm.trans (hreports options'))

theorem isOk_analyze_eq (h : root.ReadFrom source) (options options' : Options) :
    (root.analyze options).isOk = (root.analyze options').isOk := by
  rw [Bool.eq_iff_iff, h.isOk_analyze_iff, h.isOk_analyze_iff]
  exact h.silent_iff options options'

end Node.ReadFrom

theorem Node.types_analyze_eq (root : Node Tag) (options options' : Options) :
    (root.analyze options).types = (root.analyze options').types := by
  have htypes (options : Options) : (root.analyze options).types =
      root.secondWalk.events.foldl TypeTable.record
        (root.firstWalk.events.foldl TypeTable.record .empty) := by
    rw [← @Options.types_filter_admits options root.secondWalk.events,
      ← @Options.types_filter_admits options root.firstWalk.events]
    rfl
  rw [htypes, htypes]

/-- For every source that can be read, the options change only what they say. Types, scopes and
validity are the same under all options. Without warnings there are none, and the log is the same.
Without reports about parentheses the warnings are the same, and the log has the same entries in the
same order but for those with the message about parentheses. -/
theorem options_change_reports_only {source : String} {root : Node Tag}
    (h : root.ReadFrom source) :
    (∀ options options' : Options,
      (root.analyze options).types = (root.analyze options').types ∧
      (root.analyze options).scopes.outline globalId =
        (root.analyze options').scopes.outline globalId ∧
      (root.analyze options).isOk = (root.analyze options').isOk) ∧
    (∀ parenReports,
      (root.analyze ⟨parenReports, false⟩).warnings = [] ∧
      (root.analyze ⟨parenReports, false⟩).log = (root.analyze ⟨parenReports, true⟩).log) ∧
    ∀ warnings,
      (root.analyze ⟨false, warnings⟩).warnings = (root.analyze ⟨true, warnings⟩).warnings ∧
      (root.analyze ⟨false, warnings⟩).log.entries =
        (root.analyze ⟨true, warnings⟩).log.entries.filter fun entry ↦
          entry.message ≠ "Parentheses contain expression of type ERROR." := by
  refine ⟨?_, ?_, ?_⟩
  · intro options options'
    exact ⟨root.types_analyze_eq options options', rfl, h.isOk_analyze_eq options options'⟩
  · intro parenReports
    refine ⟨Options.warnings_filter_admits_of_off rfl, ?_⟩
    rw [h.log_analyze, h.log_analyze, Options.entries_eq]
  · intro warnings
    refine ⟨?_, h.entries_log_analyze warnings⟩
    cases warnings with
    | false =>
      exact (Options.warnings_filter_admits_of_off rfl).trans
        (Options.warnings_filter_admits_of_off rfl).symm
    | true =>
      exact (Options.warnings_filter_admits rfl).trans (Options.warnings_filter_admits rfl).symm

/-- Of the entries for nested parentheses and the name in them, that for the name stays. -/
theorem options_change_reports_only_nested :
    ∃ e, Expr.parse "((x))" = .ok e ∧
      ((Node.expr e).analyze ⟨true, true⟩).log.entries.map Entry.source = ["x", "(x)", "((x))"] ∧
      ((Node.expr e).analyze ⟨false, true⟩).log.entries.map Entry.source = ["x"] := by
  have hunbound : (ScopeTable.initial.env globalId).usable? "x" = none := by
    rw [Env.usable?, ScopeTable.env_initial]
    rfl
  obtain ⟨e, he, hentries⟩ : ∃ e, Expr.parse "((x))" = .ok e ∧
      Options.entries ⟨true, true⟩ (e.infer (ScopeTable.initial.env globalId)).events =
        [⟨⟨⟨1, 3⟩, ⟨1, 4⟩⟩, "x", .undefinedName, "Variable [x] is undefined."⟩,
          ⟨⟨⟨1, 2⟩, ⟨1, 5⟩⟩, "(x)", .invalidBinaryOp, Violation.parenthesizedError.message⟩,
          ⟨⟨⟨1, 1⟩, ⟨1, 6⟩⟩, "((x))", .invalidBinaryOp, Violation.parenthesizedError.message⟩] := by
    refine ⟨.parens ⟨3, ⟨⟨⟨1, 1⟩, ⟨1, 6⟩⟩, "((x))"⟩⟩ (.parens ⟨2, ⟨⟨⟨1, 2⟩, ⟨1, 5⟩⟩, "(x)"⟩⟩
      (.ident ⟨1, ⟨⟨⟨1, 3⟩, ⟨1, 4⟩⟩, "x"⟩⟩ "x")), ?_, ?_⟩
    · cbv
    · simp only [Expr.infer, hunbound, Inference.conclude, Rule.parens]
      decide
  have hread := Node.ReadFrom.expr he
  have hlog : ((Node.expr e).analyze ⟨true, true⟩).log.entries =
      (List.foldl Log.add .empty (Options.entries ⟨true, true⟩
        (e.infer (ScopeTable.initial.env globalId)).events)).entries :=
    congrArg Log.entries (hread.log_analyze ⟨true, true⟩)
  refine ⟨e, he, ?_, ?_⟩
  · rw [hlog, hentries]
    decide
  · rw [((options_change_reports_only hread).2.2 true).2, hlog, hentries]
    decide

end ScriptAnalysis
