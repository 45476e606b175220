import ScriptAnalysis.Proofs.OptionEffects

/-!
# A value printed at the end of a program

A valid program stays a program with a `print` behind it, and the second walk over it reports what
is to be said of the printed value and nothing else. What it says depends only on the names that the
main part of the program binds.
-/

namespace ScriptAnalysis

open ScopeTable (globalId mainName)

namespace Grammar

open ScriptAnalysis.Parser (startsExpr)

theorem headD_append (ts us : List Token) (next : Token) :
    (ts ++ us).headD next = ts.headD (us.headD next) := by
  cases ts <;> rfl

theorem Statements.append {us : List Token} {next : Token} {ss' : List (Stmt Extent)}
    (hs : Statements us next ss') {ts : List Token} {ss : List (Stmt Extent)} :
    Statements ts (us.headD next) ss → Statements (ts ++ us) next (ss ++ ss')
  | .nil => hs
  | @Statements.cons _ ts more _ _ h hmore => by
    rw [List.append_assoc]
    refine .cons ?_ (hs.append hmore)
    rw [headD_append]
    exact h

/-- A program with one more statement, which does not begin like an expression. -/
theorem Program.concat {ts us : List Token} {stop stop' : Token} {tree : Script Extent}
    {statement : Stmt Extent} (h : Program (ts ++ [stop]) tree) (hs : Statement us stop' statement)
    (hus : startsExpr (us.headD stop').kind = false) (hstop : stop'.kind = .eof) :
    ∃ tree' main main', Program (ts ++ us ++ [stop']) tree' ∧ tree'.funcs = tree.funcs ∧
      tree.main = some main ∧ tree'.main = some main' ∧ main'.vars.decls = main.vars.decls ∧
      main'.block.stmts = main.block.stmts ++ [statement] := by
  generalize hall : ts ++ [stop] = all at h
  cases h with
  | @mk fts pts stop fs vars block hf hm hmark =>
    obtain ⟨rfl, -⟩ := List.append_inj' hall rfl
    cases hm with
    | @mk _ dts sts ds ss hd hss =>
      have hmore : Statements us stop' [statement] := by
        rw [← List.append_nil us]
        exact .cons hs .nil
      have hboth := hmore.append (hss.of_next hus)
      have htokens : fts ++ (dts ++ sts) ++ us = fts ++ (dts ++ (sts ++ us)) := by
        rw [List.append_assoc, List.append_assoc]
      rw [htokens]
      exact ⟨_, _, _, .mk hf (.mk hd hboth) hstop, rfl, rfl, rfl, rfl, rfl⟩

end Grammar

theorem FuncDef.bindings_map {α β : Type} (f : α → β) (fs : List (FuncDef α)) :
    FuncDef.bindings (fs.map (FuncDef.map f)) = FuncDef.bindings fs := by
  have hsignature (g : FuncDef α) : (g.map f).signature = g.signature := by
    simp [FuncDef.signature, FuncDef.map, Param.map]
  unfold FuncDef.bindings
  rw [FuncDef.map_name_map, List.map_map]
  exact congrArg _ (List.map_congr_left fun g _ ↦ hsignature g)

theorem Stmt.eq_print_of_map {α β : Type} {f : α → β} {s : Stmt α} {note : β} {e : Expr β}
    (h : s.map f = .print note e) :
    ∃ note' value, s = .print note' value ∧ f note' = note ∧ value.map f = e := by
  match s with
  | .print note' value =>
    rw [Stmt.map, Stmt.print.injEq] at h
    exact ⟨note', value, rfl, h⟩
  | .assign .. | .loop .. | .branch _ _ _ none | .branch _ _ _ (some _) | .ret _ none
  | .ret _ (some _) | .call .. => cases h

/-- Whether the main part of a program binds just the names of a context. -/
def Script.MainContext {α : Type} (s : Script α) (Γ : Context) : Prop :=
  ∃ main, s.main = some main ∧ Declares ⟨[], FuncDef.bindings s.funcs⟩ main.vars.decls Γ

/-- Whether a program ends with a `print`, all before that is well formed, and the main part binds
the names of a context. -/
structure Script.EndsPrinting {α : Type} (s : Script α) (note : α) (value : Expr α) (Γ : Context) :
    Prop where
  names : (s.funcs.map FuncDef.name).Nodup
  funcs : ∀ f ∈ s.funcs, f.WellTyped (FuncDef.bindings s.funcs)
  main : ∃ b before, s.main = some b ∧ b.block.stmts = before ++ [.print note value] ∧
    Declares ⟨[], FuncDef.bindings s.funcs⟩ b.vars.decls Γ ∧ Stmt.AllWellTyped Γ.env .void before

theorem Script.Written.exists_mainContext {α : Type} {s : Script α} {b : Body α} (hs : s.Written)
    (hformed : s.WellFormed) (hmain : s.main = some b) :
    ∃ Γ, s.MainContext Γ ∧ Stmt.AllWellTyped Γ.env .void b.block.stmts := by
  obtain ⟨Γ, hdeclares, htyped⟩ := (hs.wellFormed_iff.1 hformed).2.2 b hmain
  refine ⟨Γ, ⟨b, hmain, hdeclares⟩, ?_⟩
  cases hblock : b.block with
  | mk note stmts =>
    rw [hblock] at htyped
    cases htyped with
    | mk h => exact h

/-- A valid program with a `print` behind it ends so. -/
theorem Grammar.Program.exists_endsPrinting {ts us : List Token} {stop stop' word : Token}
    {tree : Script Extent} {e : Expr Extent} (h : Grammar.Program (ts ++ [stop]) tree)
    (hwritten : tree.Written) (hformed : tree.WellFormed) (hword : word.kind = .printWord)
    (he : Grammar.Expression 3 us e) (hstop : stop'.kind = .eof) :
    ∃ tree' Γ, Grammar.Program (ts ++ word :: us ++ [stop']) tree' ∧
      tree'.EndsPrinting (.spanning (word :: us) (by simp)) e Γ ∧ tree.MainContext Γ := by
  have hstarts : Parser.startsExpr word.kind = false := by
    rw [hword]
    rfl
  obtain ⟨tree', main, main', hprogram, hfuncs, hmain, hmain', hdecls, hstmts⟩ :=
    h.concat (.print hword he) hstarts hstop
  obtain ⟨hnames, htyped, -⟩ := hwritten.wellFormed_iff.1 hformed
  obtain ⟨Γ, hcontext, hbefore⟩ := hwritten.exists_mainContext hformed hmain
  have hdeclares : Declares ⟨[], FuncDef.bindings tree.funcs⟩ main.vars.decls Γ := by
    obtain ⟨_, hsame, hdeclares⟩ := hcontext
    obtain rfl := Option.some.inj (hmain.symm.trans hsame)
    exact hdeclares
  rw [← hdecls] at hdeclares
  rw [← hfuncs] at hnames htyped hdeclares
  exact ⟨tree', Γ, hprogram, ⟨hnames, htyped, main', _, hmain', hstmts, hdeclares, hbefore⟩,
    hcontext⟩

/-- What is printed has a shorter text than the `print`, with all that is in it. -/
theorem Grammar.Expression.text_ne {us : List Token} {word : Token} {e : Expr Extent}
    (h : Grammar.Expression 3 us e) (hword : word.lexeme ≠ "") :
    ∀ node ∈ e.walk fun _ ↦ false,
      node.note.text ≠ (Extent.spanning (word :: us) (by simp)).text := by
  intro node hnode heq
  obtain ⟨vs, ⟨front, back, rfl⟩, hspells⟩ := h.covers node hnode
  have hlength := congrArg (fun text ↦ text.toList.length) heq
  have hpos : 0 < word.lexeme.toList.length := by
    rw [String.length_toList]
    exact Nat.pos_of_ne_zero fun hzero ↦ hword (String.length_eq_zero_iff.1 hzero)
  simp only [hspells.toList_text, Extent.spanning, String.toList_join, Lexer.glued,
    List.map_cons, List.flatMap_cons, List.flatMap_map, List.map_append, List.flatMap_append,
    List.length_append] at hlength
  omega

/-- What is known of the end of a program does not depend on the notes of its tree. -/
theorem Script.EndsPrinting.of_map {α β : Type} {f : α → β} {s : Script α} {note : β}
    {value : Expr β} {Γ : Context} (h : (s.map f).EndsPrinting note value Γ) :
    ∃ note' value', s.EndsPrinting note' value' Γ ∧ f note' = note ∧ value'.map f = value := by
  obtain ⟨b, before, hmain, hstmts, hdeclares, htyped⟩ := h.main
  obtain ⟨b, hb, rfl⟩ := Option.map_eq_some_iff.1 hmain
  have hstmts : b.block.stmts.map (Stmt.map f) = before ++ [.print note value] := by
    rw [← hstmts, ← Stmt.mapAll_eq_map]
    unfold Body.map
    cases b.block with
    | mk note stmts => rfl
  obtain ⟨before, last, heq, rfl, hlast⟩ := List.map_eq_append_iff.1 hstmts
  obtain ⟨last, rfl, hprint⟩ := List.map_eq_singleton_iff.1 hlast
  obtain ⟨note', value', rfl, hnote, hvalue⟩ := Stmt.eq_print_of_map hprint
  have hnames := h.names
  have hfuncs := h.funcs
  simp only [Script.map, FuncDef.map_name_map, FuncDef.bindings_map, List.forall_mem_map,
    FuncDef.wellTyped_map] at hnames hfuncs hdeclares
  rw [← Stmt.mapAll_eq_map] at htyped
  exact ⟨note', value', ⟨hnames, hfuncs, b, before, hb, heq, declares_map.1 hdeclares,
    htyped.of_map⟩, hnote, hvalue⟩

theorem exists_events_closeLocals (t : ScopeTable) (id : ScopeId) (events : List Event)
    (locals : List Local) :
    ∃ after, (closeLocals t id events locals).events = events ++ after ∧
      ∀ event ∈ after, event.entry? = none := by
  unfold closeLocals
  simp only
  split
  · exact ⟨[], (List.append_nil events).symm, List.forall_mem_nil _⟩
  · refine ⟨_, rfl, ?_⟩
    intro event hevent
    obtain ⟨l, -, hl⟩ := List.mem_flatMap.1 hevent
    exact l.entry?_warning event hl

theorem Block.check_eq (setting : Setting) (flow : Flow) (b : Block Tag) :
    b.check setting flow = Stmt.checkAll setting flow b.stmts := by
  cases b with
  | mk note stmts => rw [Block.check]; rfl

theorem Stmt.exists_checkAll_append (setting : Setting) (flow : Flow) (ss ss' : List (Stmt Tag)) :
    ∃ flow', Stmt.checkAll setting flow (ss ++ ss') =
      Stmt.checkAll setting flow ss ++ Stmt.checkAll setting flow' ss' := by
  induction ss generalizing flow with
  | nil => exact ⟨flow, by rw [Stmt.checkAll]; rfl⟩
  | cons s ss ih =>
    obtain ⟨flow', hlater⟩ := ih (flow.after s.isReturn)
    refine ⟨flow', ?_⟩
    rw [List.cons_append, Stmt.checkAll, Stmt.checkAll, hlater, ← List.append_assoc]

section

variable {options : Options} {t : ScopeTable} {id : ScopeId} {returns : Prim} {Γ Γ' : Context}
  {note : Tag} {value : Expr Tag}

/-- What is reported of a printed value and of its printing. -/
def printEvents (env : Env) (note : Tag) (value : Expr Tag) : List Event :=
  (value.infer env).events ++ verdict note (Rule.printing (value.infer env).type)

/-- Behind statements that are well typed, only a value that is printed can be reported. -/
theorem Stmt.exists_events_checkAll {setting : Setting} (hproper : setting.env.Proper)
    (hreturns : setting.returns = some (.prim returns)) {ss : List (Stmt Tag)}
    (hss : Stmt.AllWellTyped setting.env returns ss) (flow : Flow) :
    ∃ before, Stmt.checkAll setting flow (ss ++ [.print note value]) =
      before ++ printEvents setting.env note value ∧ options.Silent before := by
  obtain ⟨flow', hevents⟩ := Stmt.exists_checkAll_append setting flow ss [.print note value]
  have hlast : Stmt.checkAll setting flow' [.print note value] =
      flow'.warning note ++ printEvents setting.env note value := by
    rw [Stmt.checkAll, Stmt.checkAll, Stmt.check, List.append_nil]
    rfl
  refine ⟨Stmt.checkAll setting flow ss ++ flow'.warning note, ?_, ?_⟩
  · rw [hevents, hlast, List.append_assoc]
  · rw [Options.silent_append]
    exact ⟨(Stmt.silent_checkAll_iff hproper hreturns flow ss).2 hss,
      Options.silent_of_entry?_eq_none (flow'.entry?_warning note)⟩

theorem Body.exists_events_check {b : Body Tag} {ss : List (Stmt Tag)} (h : t.Holds id returns Γ)
    (hdecls : ∀ d ∈ b.vars.decls, (writtenType? d.type).isSome = true)
    (hdeclares : Declares Γ b.vars.decls Γ') (hstmts : b.block.stmts = ss ++ [.print note value])
    (hss : Stmt.AllWellTyped Γ'.env returns ss) :
    ∃ before after, (b.check t id [] []).events =
        before ++ printEvents Γ'.env note value ++ after ∧
      options.Silent before ∧ options.Silent after := by
  obtain ⟨hdeclared, hholds⟩ := @VarDecl.silent_checkAll_iff options t id returns Γ h _ hdecls
  have hinside := hholds Γ' hdeclares
  obtain ⟨henv, hreturns⟩ := hinside.setting
  have hproper := hinside.proper.env
  rw [← henv] at hproper hss ⊢
  obtain ⟨before, hevents, hbefore⟩ :=
    @Stmt.exists_events_checkAll options returns note value _ hproper hreturns ss hss .live
  unfold Body.check
  simp only [Block.check_eq, hstmts, hevents]
  obtain ⟨after, hafter, hsilent⟩ := exists_events_closeLocals
    (VarDecl.checkAll t id b.vars.decls).scopes id _
    ([] ++ (VarDecl.checkAll t id b.vars.decls).locals)
  refine ⟨(VarDecl.checkAll t id b.vars.decls).events ++ before, after, ?_, ?_,
    Options.silent_of_entry?_eq_none hsilent⟩
  · rw [hafter, List.append_nil, List.append_assoc, List.append_assoc, List.append_assoc,
      List.append_assoc]
  · rw [Options.silent_append]
    exact ⟨hdeclared.2 ⟨Γ', hdeclares⟩, hbefore⟩

end

/-- The second walk over functions that are well typed reports nothing, and leaves the main part
with their bindings. -/
theorem Script.Written.exists_secondWalk {s : Script Tag} {b : Body Tag} (hs : s.Written)
    (hnames : (s.funcs.map FuncDef.name).Nodup)
    (hfuncs : ∀ f ∈ s.funcs, f.WellTyped (FuncDef.bindings s.funcs)) (hmain : s.main = some b)
    (options : Options) :
    ∃ before mid id, (Node.script s).secondWalk.events =
        before ++ Pass.inferring.around mainName id (b.check mid id [] []).events ∧
      options.Silent before ∧ mid.Holds id .void ⟨[], FuncDef.bindings s.funcs⟩ := by
  let t := (s.declare .initial).scopes
  have ht : s.LaidOut t := s.declare_laidOut
  have hhosts := Script.globalScope_hosts hs.1 hnames
  obtain ⟨hfault, hg, -⟩ := @FuncDef.checkAll_of_children options t s.globalScope s.funcs []
    hs.1 ht.outer (Script.exists_child hs.1)
  obtain ⟨hsilent, hkept⟩ := @ScopeTable.Awaits.silent_checkAll_iff options t s.globalScope s.funcs
    [] 1 _ (ht.awaits hs.1 hnames) hhosts hs.1 (fresh_nil.2 hnames)
  have hown := (hkept _ (Nat.le_refl _)).trans (ht.main (by rw [hmain]; rfl))
  refine ⟨_, _, 1 + s.funcs.length, ?_, hsilent.2 hfuncs,
    ScopeTable.holds_main (Script.one_add_ne_globalId _) hown hg hhosts⟩
  have hbody : (b.check (FuncDef.checkAll t [] s.funcs).scopes (1 + s.funcs.length) [] []).fault =
      none := Body.fault_check (by simp) fun d hd ↦ (hs.2 b hmain d hd).1
  have hwithin : b.checkMain (FuncDef.checkAll t [] s.funcs).scopes = _ :=
    ScopeTable.within_eq (Script.childNamed?_main hmain hg) hbody
  have hcheck : (Node.script s).secondWalk = s.check t := rfl
  rw [hcheck, Script.check, Walk.andThen_of_fault hfault, hmain]
  simp only [hwithin]

/-- The second walk over a program that ends with a `print` reports only what the value calls
for. -/
theorem Script.EndsPrinting.exists_events {s : Script Tag} {note : Tag} {value : Expr Tag}
    {Γ : Context} (h : s.EndsPrinting note value Γ) (hs : s.Written) (options : Options) :
    Γ.env.Proper ∧ ∃ before after, (Node.script s).secondWalk.events =
        before ++ printEvents Γ.env note value ++ after ∧
      options.Silent before ∧ options.Silent after := by
  obtain ⟨b, ss, hmain, hstmts, hdeclares, htyped⟩ := h.main
  obtain ⟨funcs, mid, id, hevents, hfuncs, hholds⟩ :=
    hs.exists_secondWalk h.names h.funcs hmain options
  have hdecls : ∀ d ∈ b.vars.decls, (writtenType? d.type).isSome = true := fun d hd ↦
    (hs.2 b hmain d hd).2
  obtain ⟨before, after, hbody, hbefore, hafter⟩ :=
    @Body.exists_events_check options _ _ _ _ _ _ _ _ _ hholds hdecls hdeclares hstmts htyped
  have hproper : Γ.env.Proper :=
    ((@VarDecl.silent_checkAll_iff options _ _ _ _ hholds _ hdecls).2 Γ hdeclares).proper.env
  refine ⟨hproper, funcs ++ .entered .inferring mainName id :: before,
    after ++ [.left .inferring mainName id], ?_, ?_, ?_⟩
  · rw [hevents, Pass.around, hbody]
    simp only [List.append_assoc, List.cons_append]
  · simp [Event.entry?, hfuncs, hbefore]
  · simp [Event.entry?, hafter]

end ScriptAnalysis
