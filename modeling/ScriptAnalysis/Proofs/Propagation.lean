import ScriptAnalysis.Proofs.Events
import ScriptAnalysis.Proofs.Ordering

/-!
# Errors and reports go together

An expression is of type `error` exactly if something was reported while it was walked, whether
parentheses are reported or not. What was reported stays in the log under the line and the text of
the expression it is about, so an error that is passed on in silence was reported further inside.
-/

namespace ScriptAnalysis

open ScopeTable (globalId mainName)

/-- Whether no function that a name stands for returns `error`. -/
def Env.Sound (env : Env) : Prop :=
  ∀ name signature, env name = some (.func signature) → signature.returns ≠ .error

theorem Env.usable?_eq_some {env : Env} {name : String} {type : Ty} :
    env.usable? name = some type ↔ env name = some type ∧ type ≠ .error := by
  rw [Env.usable?, Option.filter_eq_some_iff, decide_eq_true_iff]

/-- A negation has a type only where its operand has one, and then not `error`. -/
theorem Rule.ne_error_of_negation_eq_ok {op : String} {operand type : Ty}
    (h : negation op operand = .ok type) : operand ≠ .error ∧ type ≠ .error := by
  unfold negation at h
  split at h
  · next hint =>
    cases h
    simp [hint.2]
  · split at h
    · next hbool =>
      cases h
      simp [hbool.2]
    · cases h

/-- An operation has a type only where both its operands have one, and then not `error`. -/
theorem Rule.ne_error_of_operation_eq_ok {op : Operator} {left right type : Ty}
    (h : operation op left right = .ok type) :
    left ≠ .error ∧ right ≠ .error ∧ type ≠ .error := by
  unfold operation at h
  split at h
  · next hints =>
    cases h
    simp only [hints.1, hints.2]
    split <;> simp
  · split at h
    · cases h
    · split at h <;> cases h

theorem Rule.eq_of_application_eq_ok {callee : String} {bound : Option Ty} {args : List Ty}
    {type : Ty} (h : application callee bound args = .ok type) :
    ∃ signature, bound = some (.func signature) ∧
      type = if .error ∈ args then .error else .prim signature.returns := by
  unfold application at h
  split at h
  · cases h
  · cases h
  · next signature =>
    split at h
    · cases h
    · split at h
      · cases h
      · exact ⟨signature, rfl, (Except.ok.inj h).symm⟩

section

variable {options : Options} {env : Env}

open Inference (conclude silent_conclude silent_of_conclude)

/-- A rule that reports its violations keeps errors and reports together if it does so where it
gives a type. -/
theorem Inference.error_iff_conclude {node : Tag} {events : List Event} {r : Except Violation Ty}
    (hr : r ≠ .error .parenthesizedError)
    (hok : ∀ type, r = .ok type → (type = .error ↔ ¬ options.Silent events)) :
    (conclude node events r).type = .error ↔
      ¬ options.Silent (conclude node events r).events := by
  rw [silent_conclude hr]
  cases r with
  | ok type => simpa [conclude] using hok type rfl
  | error violation => simp [conclude]

mutual

theorem Expr.error_iff_reports (henv : env.Sound) (e : Expr Tag) :
    (e.infer env).type = .error ↔ ¬ options.Silent (e.infer env).events := by
  match e with
  | .int note value | .string note value | .bool note value =>
    apply Inference.error_iff_conclude (by simp)
    rintro _ ⟨⟩
    simp
  | .ident note name =>
    rw [Expr.infer]
    split
    · next type htype =>
      apply Inference.error_iff_conclude (by simp)
      rintro _ ⟨⟩
      simp [(Env.usable?_eq_some.1 htype).2, Event.entry?]
    · apply Inference.error_iff_conclude (by simp)
      rintro _ ⟨⟩
  | .negate note op operand =>
    have hoperand := operand.error_iff_reports henv
    apply Inference.error_iff_conclude (Rule.negation_ne_parens _ _)
    intro type htype
    rw [← hoperand]
    obtain ⟨hne, htype⟩ := Rule.ne_error_of_negation_eq_ok htype
    exact iff_of_false htype hne
  | .parens note inner =>
    have hinner := inner.error_iff_reports henv
    rw [Expr.infer]
    by_cases herror : (inner.infer env).type = .error
    · -- The parentheses may go unreported, but what is inside them was not.
      rw [Rule.parens, if_pos herror]
      exact iff_of_true rfl fun hsilent ↦ hinner.1 herror (silent_of_conclude hsilent)
    · rw [Rule.parens, if_neg herror]
      apply Inference.error_iff_conclude (by simp)
      rintro _ ⟨⟩
      exact hinner
  | .binary note op left right =>
    have hleft := left.error_iff_reports henv
    have hright := right.error_iff_reports henv
    apply Inference.error_iff_conclude (Rule.operation_ne_parens _ _ _)
    intro type htype
    rw [Options.silent_append, Classical.not_and_iff_not_or_not, ← hleft, ← hright]
    obtain ⟨hl, hr, htype⟩ := Rule.ne_error_of_operation_eq_ok htype
    exact iff_of_false htype (not_or.2 ⟨hl, hr⟩)
  | .call note callee args =>
    have hargs := Expr.error_mem_iff_reports henv args
    rw [Expr.infer_call]
    apply Inference.error_iff_conclude (Rule.application_ne_parens _ _ _)
    intro type htype
    obtain ⟨signature, hcallee, rfl⟩ := Rule.eq_of_application_eq_ok htype
    have hreturns := henv callee signature (Env.usable?_eq_some.1 hcallee).1
    rw [← hargs]
    by_cases hmem : .error ∈ (Expr.inferAll env args).1 <;> simp [hmem, hreturns]

theorem Expr.error_mem_iff_reports (henv : env.Sound) (es : List (Expr Tag)) :
    .error ∈ (Expr.inferAll env es).1 ↔ ¬ options.Silent (Expr.inferAll env es).2 := by
  match es with
  | [] => simp [Expr.inferAll]
  | e :: es =>
    rw [Expr.inferAll_cons, List.mem_cons, eq_comm, e.error_iff_reports henv,
      Expr.error_mem_iff_reports henv es, Options.silent_append]
    exact Classical.not_and_iff_not_or_not.symm

end

end

namespace Log

variable {log : Log} {line : Int} {source : String}

/-- Whether there is an entry for a text on a line. -/
def Mentions (log : Log) (line : Int) (source : String) : Prop :=
  ∃ entry ∈ log.entries, entry.line = line ∧ entry.source = source

/-- An entry is there, whether it was put in or put in the place of another. -/
theorem mem_add_self (log : Log) (e : Entry) : e ∈ (log.add e).entries := by
  unfold Log.add
  split
  · next hany =>
    obtain ⟨old, hold, hkey⟩ := List.any_eq_true.1 hany
    exact List.mem_map.2 ⟨old, hold, if_pos hkey⟩
  · exact Ordered.mem_insert.2 (.inl rfl)

theorem mentions_add (log : Log) (e : Entry) : (log.add e).Mentions e.line e.source :=
  ⟨e, log.mem_add_self e, rfl, rfl⟩

/-- What replaces an entry has its key. -/
theorem Mentions.add (h : log.Mentions line source) (e : Entry) :
    (log.add e).Mentions line source := by
  obtain ⟨entry, hentry, hline, hsource⟩ := h
  unfold Log.add
  split
  · by_cases hkey : entry.sameKey e = true
    · have heq : entry.line = e.line ∧ entry.source = e.source := by
        simpa [Entry.sameKey] using hkey
      exact ⟨e, List.mem_map.2 ⟨entry, hentry, if_pos hkey⟩, heq.1.symm.trans hline,
        heq.2.symm.trans hsource⟩
    · exact ⟨entry, List.mem_map.2 ⟨entry, hentry, if_neg hkey⟩, hline, hsource⟩
  · exact ⟨entry, Ordered.mem_insert.2 (.inr hentry), hline, hsource⟩

theorem Mentions.foldl_record (h : log.Mentions line source) (events : List Event) :
    (events.foldl Log.record log).Mentions line source := by
  induction events generalizing log with
  | nil => exact h
  | cons event events ih =>
    apply ih
    unfold Log.record
    split
    · exact h
    · exact h.add _

theorem mentions_foldl_record {events : List Event} {event : Event} {entry : Entry}
    (hevent : event ∈ events) (hentry : event.entry? = some entry) (log : Log) :
    (events.foldl Log.record log).Mentions entry.line entry.source := by
  induction events generalizing log with
  | nil => cases hevent
  | cons first events ih =>
    rcases List.mem_cons.1 hevent with heq | hlater
    · subst heq
      have hfirst : (log.record event).Mentions entry.line entry.source := by
        rw [Log.record, hentry]
        exact mentions_add log entry
      exact hfirst.foldl_record events
    · exact ih hlater (log.record first)

theorem Mentions.isEmpty (h : log.Mentions line source) : log.isEmpty = false := by
  obtain ⟨entry, hentry, -⟩ := h
  rw [Log.isEmpty, List.isEmpty_eq_false_iff]
  exact List.ne_nil_of_mem hentry

end Log

/-- Every report that counts is in the log of an analysis. -/
theorem Node.mentions_log_analyze {root : Node Tag} {options : Options} {event : Event}
    {entry : Entry} (hevent : event ∈ root.secondWalk.events)
    (hadmits : options.admits event = true) (hentry : event.entry? = some entry) :
    (root.analyze options).log.Mentions entry.line entry.source :=
  Log.mentions_foldl_record (List.mem_filter.2 ⟨hevent, hadmits⟩) hentry _

/-- Whether no function that a scope binds returns `error`. -/
def Scope.Sound (s : Scope) : Prop :=
  ∀ name symbol signature, s.get? name = some symbol → symbol.type = some (.func signature) →
    signature.returns ≠ .error

theorem Scope.Sound.define {s : Scope} (h : s.Sound) (name : String) (type : Prim) :
    (s.define name (some (.prim type))).Sound := by
  intro name' symbol signature hsymbol htype
  rw [Scope.get?_define] at hsymbol
  split at hsymbol
  · cases hsymbol
    cases htype
  · exact h name' symbol signature hsymbol htype

theorem Param.sound_openScope {α : Type} (name : String) (returns : Option Ty)
    (ps : List (Param α)) : (Param.openScope name returns ps).Sound := by
  have hfold (s : Scope) (hs : s.Sound) : (ps.foldl Param.declareIn s).Sound := by
    induction ps generalizing s with
    | nil => exact hs
    | cons p ps ih =>
      apply ih
      intro name' symbol signature hsymbol htype
      rw [Param.declareIn, Scope.get?_defineParam] at hsymbol
      split at hsymbol
      · cases hsymbol
        cases htype
      · exact hs name' symbol signature hsymbol htype
  apply hfold
  intro name' symbol signature hsymbol
  rw [Scope.get?_empty] at hsymbol
  cases hsymbol

theorem Script.sound_globalScope {s : Script Tag} (h : ∀ f ∈ s.funcs, f.Written) :
    s.globalScope.Sound := by
  intro name symbol signature hsymbol htype
  obtain ⟨i, f, hf, -, rfl⟩ := Script.get?_globalScope.1 hsymbol
  cases htype
  exact (h f (List.mem_of_getElem? hf.get)).returns_ne_error

theorem ScopeTable.env_setting (t : ScopeTable) (id : ScopeId) : (t.setting id).env = t.env id := by
  unfold ScopeTable.setting
  split <;> rfl

namespace ScopeTable.Inside

variable {t : ScopeTable} {id : ScopeId} {g s : Scope}

theorem sound_env (h : t.Inside id g s) (hs : s.Sound) (hg : g.Sound) : (t.env id).Sound := by
  intro name signature htype
  obtain ⟨symbol, hsymbol, htype⟩ := Option.bind_eq_some_iff.1 htype
  rw [h.resolve?, Option.or_eq_some_iff] at hsymbol
  rcases hsymbol with hinner | ⟨-, houter⟩
  · exact hs name symbol signature hinner htype
  · exact hg name symbol signature houter htype

theorem checkAll (h : t.Inside id g s) (hs : s.Sound) (ds : List (VarDecl Tag)) :
    ∃ s', (VarDecl.checkAll t id ds).scopes.Inside id g s' ∧ s'.Sound := by
  induction ds generalizing t s with
  | nil => exact ⟨s, h, hs⟩
  | cons d ds ih => exact ih (h.check d) (hs.define _ _)

/-- The value of each declaration is walked under what is bound by then. -/
theorem exists_env_checkAll (h : t.Inside id g s) (hs : s.Sound) (hg : g.Sound) {e : Expr Tag}
    {ds : List (VarDecl Tag)} (he : .expr e ∈ ds.flatMap (VarDecl.walk fun _ ↦ false)) :
    ∃ env : Env, env.Sound ∧ (e.infer env).events <:+: (VarDecl.checkAll t id ds).events := by
  induction ds generalizing t s with
  | nil => cases he
  | cons d ds ih =>
    rw [List.flatMap_cons, List.mem_append] at he
    rcases he with hfirst | hothers
    · have hinit := (List.mem_cons.1 hfirst).resolve_left (by simp)
      obtain ⟨init, hd, hinner⟩ := List.mem_flatMap.1 hinit
      have hevents : (e.infer (t.env id)).events <:+: (d.check t id).events :=
        (Expr.infix_infer hinner).trans (VarDecl.infix_check (Option.mem_toList.1 hd))
      exact ⟨t.env id, h.sound_env hs hg, hevents.trans (List.prefix_append _ _).isInfix⟩
    · obtain ⟨env, henv, hevents⟩ := ih (h.check d) (hs.define _ _) hothers
      exact ⟨env, henv, hevents.trans (List.suffix_append _ _).isInfix⟩

theorem exists_env_check (h : t.Inside id g s) (hs : s.Sound) (hg : g.Sound) {e : Expr Tag}
    {body : Body Tag} (he : .expr e ∈ body.walkParts fun _ ↦ false) (locals : List Local)
    (closing : List Event) :
    ∃ env : Env, env.Sound ∧
      (e.infer env).events <:+: (body.check t id locals closing).events := by
  have hparts : ∃ env : Env, env.Sound ∧ (e.infer env).events <:+:
      (VarDecl.checkAll t id body.vars.decls).events ++ body.block.check
        ((VarDecl.checkAll t id body.vars.decls).scopes.setting id) .live := by
    rcases List.mem_append.1 he with hvars | hblock
    · have hdecls := (List.mem_cons.1 hvars).resolve_left (by simp)
      obtain ⟨env, henv, hevents⟩ := h.exists_env_checkAll hs hg hdecls
      exact ⟨env, henv, hevents.trans (List.prefix_append _ _).isInfix⟩
    · obtain ⟨s', hinside, hs'⟩ := h.checkAll hs body.vars.decls
      refine ⟨_, ?_, (Block.infix_check hblock).trans (List.suffix_append _ _).isInfix⟩
      rw [ScopeTable.env_setting]
      exact hinside.sound_env hs' hg
  obtain ⟨env, henv, hevents⟩ := hparts
  exact ⟨env, henv, (hevents.trans (List.prefix_append _ _).isInfix).trans infix_closeLocals⟩

end ScopeTable.Inside

/-! ## Expressions that are visited -/

/-- Whether an expression is one of those that the second walk over a node visits. -/
inductive Node.VisitsExpr : Node Tag → Expr Tag → Prop
  | inBody {s : Script Tag} {id : ScopeId} {params : List (Param Tag)} {body : Body Tag}
      {e : Expr Tag} (h : s.Visits id params body) (he : .expr e ∈ body.walkParts fun _ ↦ false) :
      VisitsExpr (.script s) e
  | inExpr {whole e : Expr Tag} (he : .expr e ∈ (Node.expr whole).all) : VisitsExpr (.expr whole) e

theorem ScopeTable.env_initial (name : String) : ScopeTable.initial.env globalId name = none := by
  simp [ScopeTable.env, ScopeTable.resolve?, ScopeTable.outward, ScopeTable.size,
    ScopeTable.outwardUpTo, ScopeTable.scope?, ScopeTable.local?, ScopeTable.initial, Scope.empty,
    Scope.get?]

theorem Node.ReadFrom.exists_env {source : String} {root : Node Tag} (h : root.ReadFrom source)
    {e : Expr Tag} (he : root.VisitsExpr e) :
    ∃ env : Env, env.Sound ∧ (e.infer env).events <:+: root.secondWalk.events := by
  cases h with
  | script h =>
    cases he with
    | inBody hvisits he =>
      obtain ⟨b, mid, events, htour⟩ := Script.exists_tour h
      obtain ⟨u, name, returns, locals, closing, hinside, -, hbody, -⟩ := htour.visit hvisits
      obtain ⟨env, henv, hevents⟩ := hinside.exists_env_check (Param.sound_openScope _ _ _)
        (Script.sound_globalScope (Script.written_of_parse h).1) he locals closing
      exact ⟨env, henv, (hevents.trans (Pass.infix_around _ _ _ _)).trans hbody⟩
  | expr h =>
    cases he with
    | inExpr he =>
      refine ⟨ScopeTable.initial.env globalId, ?_, Expr.infix_infer he⟩
      intro name signature htype
      rw [ScopeTable.env_initial] at htype
      cases htype

mutual

theorem Expr.eq_of_mem_walk {e : Expr Tag} {node : Node Tag} (h : node ∈ e.walk fun _ ↦ false) :
    ∃ inner, node = .expr inner := by
  match e with
  | .int note value | .string note value | .bool note value | .ident note value =>
    exact ⟨_, List.mem_singleton.1 h⟩
  | .negate note op operand =>
    rcases List.mem_cons.1 h with heq | hbelow
    · exact ⟨_, heq⟩
    · exact Expr.eq_of_mem_walk hbelow
  | .parens note inner =>
    rcases List.mem_cons.1 h with heq | hbelow
    · exact ⟨_, heq⟩
    · exact Expr.eq_of_mem_walk hbelow
  | .binary note op left right =>
    rcases List.mem_cons.1 h with heq | hbelow
    · exact ⟨_, heq⟩
    · rcases List.mem_append.1 hbelow with hleft | hright
      · exact Expr.eq_of_mem_walk hleft
      · exact Expr.eq_of_mem_walk hright
  | .call note callee args =>
    rcases List.mem_cons.1 h with heq | hbelow
    · exact ⟨_, heq⟩
    · exact Expr.eq_of_mem_walkAll hbelow

theorem Expr.eq_of_mem_walkAll {es : List (Expr Tag)} {node : Node Tag}
    (h : node ∈ Expr.walkAll (fun _ ↦ false) es) : ∃ inner, node = .expr inner := by
  match es with
  | [] => cases h
  | e :: es =>
    rcases List.mem_append.1 h with hfirst | hothers
    · exact Expr.eq_of_mem_walk hfirst
    · exact Expr.eq_of_mem_walkAll hothers

end

/-- What is reported while an expression is walked is about an expression inside it. -/
theorem Expr.exists_reported {options : Options} {env : Env} {e : Expr Tag}
    (h : ¬ options.Silent (e.infer env).events) :
    ∃ inner violation, .expr inner ∈ (Node.expr e).all ∧
      .reported inner.note violation ∈ (e.infer env).events ∧
      options.admits (.reported inner.note violation) = true := by
  apply Classical.byContradiction
  intro hnone
  apply h
  intro event hevent hadmits
  cases (e.records_infer env).about event hevent with
  | reported hnode violation =>
    obtain ⟨inner, rfl⟩ := Expr.eq_of_mem_walk hnode
    exact absurd ⟨inner, violation, hnode, hevent, hadmits⟩ hnone
  | typed hnode type => rfl
  | read name => rfl
  | warned span caution => rfl

theorem Event.About.exists_of_typed {nodes : List (Node Tag)} {tag : Tag} {type : Ty}
    (h : Event.About nodes (.typed tag type)) : ∃ node ∈ nodes, node.note = tag := by
  cases h with
  | typed h type => exact ⟨_, h, rfl⟩

/-- Types are only given in the bodies that are visited. -/
theorem FuncDef.Run.typed_mem {g : Scope} {t t' : ScopeTable} {seen : List String} {next : ScopeId}
    {fs : List (FuncDef Tag)} {events : List Event} (h : FuncDef.Run g t seen next fs t' events)
    {tag : Tag} {type : Ty} (htyped : .typed tag type ∈ events) :
    ∃ i f u, LastAt FuncDef.name fs i f ∧ u.scope? globalId = some g ∧
      u.scope? (next + i) = some f.ownScope ∧ (f.checkBody u (next + i)).events <:+: events ∧
      .typed tag type ∈ (f.checkBody u (next + i)).events := by
  have hshift (next i : Nat) : next + 1 + i = next + (i + 1) := Nat.add_right_comm next 1 i
  have hreports (f : FuncDef Tag) (seen : List String) : .typed tag type ∉ f.reports seen := by
    intro hmem
    cases (f.quiet_reports seen _ hmem).2
  induction h with
  | nil => cases htyped
  | @shadowed t t' seen next f fs events hname later ih =>
    have hlater : .typed tag type ∈ events := by simpa [hreports] using htyped
    obtain ⟨i, f', u, hf', hg, hown, hevents, hmem⟩ := ih hlater
    rw [hshift] at hown hevents hmem
    exact ⟨i + 1, f', u, lastAt_succ.2 hf', hg, hown,
      hevents.trans (List.suffix_append _ _).isInfix, hmem⟩
  | @last t t' seen next f fs events hname hg hown later ih =>
    rcases List.mem_append.1 htyped with hfirst | hlater
    · have hbody : .typed tag type ∈ (f.checkBody t next).events := by
        simpa [hreports, Pass.around] using hfirst
      refine ⟨0, f, t, lastAt_zero.2 ⟨rfl, hname⟩, hg, hown, ?_, hbody⟩
      exact (Pass.infix_around .inferring f.name next _).trans ⟨f.reports seen, events, rfl⟩
    · obtain ⟨i, f', u, hf', hg, hown, hevents, hmem⟩ := ih hlater
      rw [hshift] at hown hevents hmem
      exact ⟨i + 1, f', u, lastAt_succ.2 hf', hg, hown,
        hevents.trans (List.suffix_append _ _).isInfix, hmem⟩

theorem Script.Tour.typed_mem {s : Script Tag} {b : Body Tag} {mid : ScopeTable}
    {events : List Event} (h : s.Tour b mid events) {tag : Tag} {type : Ty}
    (htyped : .typed tag type ∈ (Node.script s).secondWalk.events) :
    ∃ id params body, s.Visits id params body ∧ ∃ u name returns locals closing,
      u.Inside id s.globalScope (Param.openScope name returns params) ∧
      Quiet (body.walkParts fun _ ↦ false) closing ∧
      (body.check u id locals closing).events <:+: (Node.script s).secondWalk.events ∧
      .typed tag type ∈ (body.check u id locals closing).events := by
  rw [h.check] at htyped ⊢
  rcases List.mem_append.1 htyped with hfuncs | hmain
  · obtain ⟨i, f, u, hf, hg, hown, hevents, hmem⟩ := h.run.typed_mem hfuncs
    exact ⟨_, _, _, .func hf, u, f.name, _, _, _,
      ⟨one_add_ne_globalId i, hown, Param.parent_openScope _ _ _, hg, s.parent_globalScope⟩,
      .fallThrough _ f, hevents.trans (List.prefix_append _ _).isInfix, hmem⟩
  · have hbody : .typed tag type ∈ (b.check mid (1 + s.funcs.length) [] []).events := by
      simpa [Pass.around] using hmain
    exact ⟨_, _, _, .main h.main, mid, mainName, some .void, [], [],
      ⟨one_add_ne_globalId _, h.own, rfl, h.outer, s.parent_globalScope⟩, .nil,
      (Pass.infix_around _ _ _ _).trans (List.suffix_append _ _).isInfix, hbody⟩

theorem Script.Visits.mem_all {s : Script Tag} {id : ScopeId} {params : List (Param Tag)}
    {body : Body Tag} (h : s.Visits id params body) {node : Node Tag}
    (hnode : node ∈ body.walkParts fun _ ↦ false) : node ∈ (Node.script s).all := by
  apply List.mem_cons_of_mem
  cases h with
  | @func i f hf =>
    apply List.mem_append_left
    apply List.mem_flatMap.2
    refine ⟨f, List.mem_of_getElem? hf.get, ?_⟩
    exact List.mem_cons_of_mem _ (List.mem_append_right _ (List.mem_cons_of_mem _ hnode))
  | main hmain =>
    apply List.mem_append_right
    apply List.mem_flatMap.2
    exact ⟨body, Option.mem_toList.2 hmain, List.mem_cons_of_mem _ hnode⟩

/-- Only an expression that is visited is given a type. -/
theorem Node.ReadFrom.visitsExpr_of_get? {source : String} {root : Node Tag}
    (h : root.ReadFrom source) {options : Options} {e : Expr Tag} {type : Ty}
    (he : .expr e ∈ root.all) (htype : (root.analyze options).types.get? e.note.id = some type) :
    root.VisitsExpr e := by
  obtain ⟨tag, hid, htyped⟩ := (h.types_get?_iff options).1 htype
  have hnodup := h.nodup_ids
  cases h with
  | script h =>
    obtain ⟨b, mid, events, htour⟩ := Script.exists_tour h
    obtain ⟨id, params, body, hvisits, u, name, returns, locals, closing, -, hclosing, -, hmem⟩ :=
      htour.typed_mem htyped
    obtain ⟨node, hnode, rfl⟩ :=
      ((body.records_check hclosing).about _ hmem).exists_of_typed
    obtain rfl : node = .expr e := eq_of_id_eq hnodup (hvisits.mem_all hnode) he hid
    exact .inBody hvisits hnode
  | expr h => exact .inExpr he

/-- For every source that can be read and whatever is to be reported: an expression that is visited
is found to be of type `error` exactly if something is reported while it is walked, and then the
log has an entry for that expression or for one inside it. So a program in which an error was
found is never taken for valid. -/
theorem error_iff_reported {source : String} {root : Node Tag} (h : root.ReadFrom source)
    (options : Options) :
    (∀ e, root.VisitsExpr e → ∃ env, (e.infer env).events <:+: root.secondWalk.events ∧
      (root.analyze options).types.get? e.note.id = some (e.infer env).type ∧
      ((e.infer env).type = .error ↔ ¬ options.Silent (e.infer env).events)) ∧
    (∀ e, .expr e ∈ root.all → (root.analyze options).types.get? e.note.id = some .error →
      ∃ inner, .expr inner ∈ (Node.expr e).all ∧
        (root.analyze options).log.Mentions inner.note.line inner.note.text) ∧
    ((∃ e, .expr e ∈ root.all ∧ (root.analyze options).types.get? e.note.id = some .error) →
      (root.analyze options).isOk = false) := by
  have hvisited : ∀ e, root.VisitsExpr e → ∃ env, (e.infer env).events <:+: root.secondWalk.events ∧
      (root.analyze options).types.get? e.note.id = some (e.infer env).type ∧
      ((e.infer env).type = .error ↔ ¬ options.Silent (e.infer env).events) := by
    intro e he
    obtain ⟨env, henv, hevents⟩ := h.exists_env he
    have htyped := hevents.mem (e.typed_mem_infer env)
    exact ⟨env, hevents, (h.types_get?_iff options).2 ⟨e.note, rfl, htyped⟩,
      e.error_iff_reports henv⟩
  have hmentions : ∀ e, .expr e ∈ root.all →
      (root.analyze options).types.get? e.note.id = some .error →
      ∃ inner, .expr inner ∈ (Node.expr e).all ∧
        (root.analyze options).log.Mentions inner.note.line inner.note.text := by
    intro e he htype
    obtain ⟨env, hevents, htype', hiff⟩ := hvisited e (h.visitsExpr_of_get? he htype)
    have herror : (e.infer env).type = .error := Option.some.inj (htype'.symm.trans htype)
    obtain ⟨inner, violation, hinner, hreported, hadmits⟩ := Expr.exists_reported (hiff.1 herror)
    exact ⟨inner, hinner, Node.mentions_log_analyze (hevents.mem hreported) hadmits rfl⟩
  refine ⟨hvisited, hmentions, ?_⟩
  rintro ⟨e, he, htype⟩
  obtain ⟨inner, -, hlog⟩ := hmentions e he htype
  exact hlog.isEmpty

/-- Parentheses that are not reported pass the error on, and the log still has what they hold. -/
theorem error_iff_reported_parens :
    ∃ e, Expr.parse "((x))" = .ok e ∧
      ((Node.expr e).analyze ⟨false, true⟩).types.get? e.note.id = some .error ∧
      ((Node.expr e).analyze ⟨false, true⟩).isOk = false := by
  obtain ⟨outer, _, _, he⟩ : ∃ a b c,
      Expr.parse "((x))" = .ok (.parens a (.parens b (.ident c "x"))) := by
    refine ⟨?_, ?_, ?_, ?parse⟩
    case parse =>
      cbv
      rfl
  have hread := Node.ReadFrom.expr he
  have hunbound : (ScopeTable.initial.env globalId).usable? "x" = none := by
    rw [Env.usable?, ScopeTable.env_initial]
    rfl
  have htype := (hread.types_get?_iff ⟨false, true⟩).2 ⟨outer, rfl, by
    change Event.typed outer .error ∈ (Expr.infer (ScopeTable.initial.env globalId) _).events
    simp [Expr.infer, hunbound, Inference.conclude, Rule.parens]⟩
  exact ⟨_, he, htype,
    (error_iff_reported hread ⟨false, true⟩).2.2 ⟨_, List.mem_cons_self, htype⟩⟩

end ScriptAnalysis
