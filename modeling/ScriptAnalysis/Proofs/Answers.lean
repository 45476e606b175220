import ScriptAnalysis.Proofs.Printed
import ScriptAnalysis.Proofs.Sessions

/-!
# What a session answers to an expression

An expression is printed at the end of the program of a session, which is valid. So the program with
it can be read, its last statement prints the expression, and all that is reported is about the
expression, but for the remark that it cannot be printed. That remark is left out; the answer is the
type of the expression if nothing is left, and the rest of the reports if something is.
-/

namespace ScriptAnalysis

/-- An expression can be read wherever it stands, and without the blanks around it. -/
theorem Expr.exists_expression {input : String} {e : Expr Tag} (h : Expr.parse input = .ok e)
    (here : Nat × Nat) :
    ∃ e', Grammar.Expression 3 (Lexer.scan here (Text.trim input).toList) e' ∧
      e'.map Extent.text = e.map Tag.text := by
  obtain ⟨tree, hstandalone, rfl⟩ := Expr.parse_eq_ok_iff.1 h
  generalize hall : Lexer.allTokens input = all at hstandalone
  cases hstandalone with
  | @mk ts stop tree hexpression hstop =>
    obtain ⟨rfl, -⟩ := List.append_inj' hall rfl
    obtain ⟨there, htokens⟩ := Lexer.exists_tokens_eq_scan_trim hexpression.solid.legal
    obtain ⟨ps, hfst, hsnd, hps, -⟩ :=
      Lexer.exists_pairs_scan there here (Text.trim input).toList
    obtain ⟨e', he', htext⟩ := hexpression.placed hps (hfst.trans htokens.symm)
    exact ⟨e', hsnd ▸ he', htext.trans (Expr.map_text_number 0 tree).symm⟩

/-- Whether it is not reported that a value cannot be printed. -/
def Unprinted (events : List Event) : Prop := ∀ tag, .reported tag .unprintable ∉ events

namespace Unprinted

variable {events events' : List Event}

theorem nil : Unprinted [] := by simp [Unprinted]

theorem append (h : Unprinted events) (h' : Unprinted events') : Unprinted (events ++ events') := by
  intro tag hmem
  rcases List.mem_append.1 hmem with hmem | hmem
  · exact h tag hmem
  · exact h' tag hmem

theorem conclude {r : Except Violation Ty} (h : Unprinted events) (note : Tag)
    (hr : r ≠ .error .unprintable) : Unprinted (Inference.conclude note events r).events := by
  cases r with
  | ok type =>
    apply h.append
    simp [Unprinted]
  | error violation =>
    have hne : Violation.unprintable ≠ violation := by
      intro heq
      rw [heq] at hr
      exact hr rfl
    apply h.append
    simp [Unprinted, hne]

end Unprinted

/-- Of an expression it is never reported that it cannot be printed. -/
theorem Infers.unprinted {env : Env} {nodes : List (Node Tag)} {events : List Event}
    (h : Infers env nodes events) : Unprinted events := by
  induction h with
  | nil => exact .nil
  | append _ _ ih ih' => exact ih.append ih'
  | @read note name type _ =>
    have hread : Unprinted [.read name] := by simp [Unprinted]
    exact hread.conclude note (by simp)
  | @unread note name _ => exact Unprinted.nil.conclude note (by simp)
  | @conclude e r _ _ _ hr _ ih =>
    apply ih.conclude e.note
    intro hunprintable
    cases hr _ hunprintable

theorem Violation.category_eq_unprintable_iff {violation : Violation} :
    violation.category = .unprintableExpression ↔ violation = .unprintable := by
  cases violation <;> simp [Violation.category]

theorem Options.entries_append (options : Options) (events events' : List Event) :
    options.entries (events ++ events') = options.entries events ++ options.entries events' := by
  unfold Options.entries
  rw [List.filter_append, List.filterMap_append]

theorem Log.mem_of_mem_foldl_add {entry : Entry} {entries : List Entry} {log : Log}
    (h : entry ∈ (entries.foldl Log.add log).entries) : entry ∈ entries ∨ entry ∈ log.entries := by
  induction entries generalizing log with
  | nil => exact .inr h
  | cons e entries ih =>
    rcases ih h with hlater | hadded
    · exact .inl (List.mem_cons_of_mem e hlater)
    · rcases Log.mem_entries_add hadded with rfl | hold
      · exact .inl List.mem_cons_self
      · exact .inr hold

/-- Whether an entry is kept among the causes why a value cannot be printed. -/
def Entry.isCause (text : String) (e : Entry) : Bool :=
  !(e.category = .unprintableExpression && e.source = text)

section

variable {script : Script Tag} {source : String} {note : Tag} {value : Expr Tag} {Γ : Context}

theorem Entry.isCause_of_category {entry : Entry} (h : entry.category ≠ .unprintableExpression)
    (text : String) : entry.isCause text = true := by
  simp [Entry.isCause, h]

theorem Expr.category_of_mem_entries {env : Env} {options : Options} {entry : Entry}
    (h : entry ∈ options.entries (value.infer env).events) :
    entry.category ≠ .unprintableExpression := by
  obtain ⟨tag, violation, hmem, rfl⟩ := Options.mem_entries h
  have hne : violation ≠ .unprintable := by
    intro heq
    rw [heq] at hmem
    exact (value.infers_infer env).unprinted tag hmem
  simpa [Violation.category_eq_unprintable_iff] using hne

theorem Expr.source_ne_of_mem_entries {env : Env} {options : Options} {text : String}
    {entry : Entry} (htexts : ∀ node ∈ value.walk fun _ ↦ false, node.note.text ≠ text)
    (h : entry ∈ options.entries (value.infer env).events) : entry.source ≠ text := by
  obtain ⟨tag, violation, hmem, rfl⟩ := Options.mem_entries h
  cases (value.records_infer env).about _ hmem with
  | reported hnode => exact htexts _ hnode

theorem Rule.eq_of_mem_entries_verdict {options : Options} {got : Ty} {entry : Entry}
    (h : entry ∈ options.entries (verdict note (Rule.printing got))) :
    entry.source = note.text ∧ entry.isCause note.text = false := by
  obtain ⟨tag, violation, hmem, rfl⟩ := Options.mem_entries h
  unfold Rule.printing at hmem
  split at hmem
  · obtain ⟨rfl, rfl⟩ : tag = note ∧ violation = .unprintable := by simpa [verdict] using hmem
    exact ⟨rfl, by simp [Entry.isCause, Violation.category]⟩
  · cases hmem

/-- All that is reported of a program that ends with a `print`, but for the remark that the value
cannot be printed, is reported of the value. -/
theorem Script.EndsPrinting.filter_log (h : script.EndsPrinting note value Γ)
    (hparse : Script.parse source = .ok script)
    (htexts : ∀ node ∈ value.walk fun _ ↦ false, node.note.text ≠ note.text) (options : Options) :
    (script.analyze options).log.entries.filter (Entry.isCause note.text) =
      ((options.entries (value.infer Γ.env).events).foldl Log.add .empty).entries := by
  obtain ⟨-, before, after, hevents, hbefore, hafter⟩ :=
    h.exists_events (Script.written_of_parse hparse) options
  let found := options.entries (value.infer Γ.env).events
  let remark := options.entries (verdict note (Rule.printing (value.infer Γ.env).type))
  have hentries : options.entries (Node.script script).secondWalk.events = found ++ remark := by
    rw [hevents, Options.entries_append, Options.entries_append,
      Options.entries_eq_nil_iff.2 hbefore, Options.entries_eq_nil_iff.2 hafter, List.append_nil,
      List.nil_append, printEvents, Options.entries_append]
  have hfound : found.filter (Entry.isCause note.text) = found :=
    List.filter_eq_self.2 fun entry hentry ↦
      Entry.isCause_of_category (Expr.category_of_mem_entries hentry) _
  have hremark : remark.filter (Entry.isCause note.text) = [] :=
    List.filter_eq_nil_iff.2 fun entry hentry ↦ by
      simp [(Rule.eq_of_mem_entries_verdict hentry).2]
  -- The remark has a text of its own, so it takes the place of no other entry.
  have hcause : ∀ a ∈ found ++ remark, a.isCause note.text = decide (a.source ≠ note.text) := by
    intro a ha
    rcases List.mem_append.1 ha with ha | ha
    · rw [Entry.isCause_of_category (Expr.category_of_mem_entries ha),
        decide_eq_true (Expr.source_ne_of_mem_entries htexts ha)]
    · obtain ⟨hsource, hremark⟩ := Rule.eq_of_mem_entries_verdict ha
      simp [hremark, hsource]
  have hkey : ∀ a ∈ found ++ remark, ∀ b ∈ found ++ remark,
      a.sameKey b = true → a.isCause note.text = b.isCause note.text := by
    intro a ha b hb hsame
    rw [hcause a ha, hcause b hb, (Entry.sameKey_iff.1 hsame).2]
  have hrestrict : ((found ++ remark).foldl Log.add .empty).restrict (Entry.isCause note.text) =
      ((found ++ remark).filter (Entry.isCause note.text)).foldl Log.add .empty :=
    Log.restrict_foldl_add Log.sorted_empty hkey
  have hlog : (script.analyze options).log = (found ++ remark).foldl Log.add .empty :=
    hentries ▸ (Node.ReadFrom.script hparse).log_analyze options
  calc (script.analyze options).log.entries.filter (Entry.isCause note.text)
      = (((found ++ remark).foldl Log.add .empty).restrict (Entry.isCause note.text)).entries := by
        rw [hlog]
        rfl
    _ = (((found ++ remark).filter (Entry.isCause note.text)).foldl Log.add .empty).entries := by
        rw [hrestrict]
    _ = (found.foldl Log.add .empty).entries := by
        rw [List.filter_append, hfound, hremark, List.append_nil]

theorem Script.EndsPrinting.types_get? (h : script.EndsPrinting note value Γ)
    (hparse : Script.parse source = .ok script) (options : Options) :
    (script.analyze options).types.get? value.note.id = some (value.infer Γ.env).type := by
  obtain ⟨-, before, after, hevents, -⟩ :=
    h.exists_events (Script.written_of_parse hparse) options
  refine ((Node.ReadFrom.script hparse).types_get?_iff options).2 ⟨value.note, rfl, ?_⟩
  rw [hevents, printEvents]
  simp [value.typed_mem_infer Γ.env]

/-- Whether something that counts is reported of an expression or of a part of it. -/
def Expr.Reported (options : Options) (events : List Event) (e : Expr Tag) : Prop :=
  ∃ inner violation, .expr inner ∈ (Node.expr e).all ∧ .reported inner.note violation ∈ events ∧
    options.admits (.reported inner.note violation) = true

theorem Script.EndsPrinting.reported_iff (h : script.EndsPrinting note value Γ)
    (hparse : Script.parse source = .ok script) (options : Options) :
    value.Reported options (Node.script script).secondWalk.events ↔
      ¬ options.Silent (value.infer Γ.env).events := by
  obtain ⟨hproper, before, after, hevents, hbefore, hafter⟩ :=
    h.exists_events (Script.written_of_parse hparse) options
  rw [hevents, printEvents]
  constructor
  · rintro ⟨inner, violation, -, hmem, hadmits⟩ hsilent
    -- A value that is not reported has a type, and can then be printed.
    have hprinted : Rule.printing (value.infer Γ.env).type = none :=
      Rule.printing_eq_none.2 (Expr.hasType_of_silent hproper value hsilent).1
    rw [hprinted, verdict, List.append_nil] at hmem
    have hall : options.Silent (before ++ (value.infer Γ.env).events ++ after) := by
      simp only [Options.silent_append]
      exact ⟨⟨hbefore, hsilent⟩, hafter⟩
    cases hall _ hmem hadmits
  · intro hreported
    obtain ⟨inner, violation, hinner, hmem, hadmits⟩ := Expr.exists_reported hreported
    exact ⟨inner, violation, hinner, by simp [hmem], hadmits⟩

end

namespace Session

variable {s : Session} {input : String} {e : Expr Tag}

theorem eval_of_expression (h : Expr.parse input = .ok e) :
    s.eval input = (s, s.typeOf (Text.trim input)) := by
  obtain ⟨e', he', -⟩ := Expr.exists_expression h (1, 1)
  have hne : Text.trim input ≠ "" := by
    intro hempty
    rw [hempty, String.toList_empty, Lexer.scan] at he'
    exact he'.ne_nil rfl
  have hstandalone : Grammar.Standalone (Lexer.allTokens (Text.trim input)) e' :=
    .mk he' (Lexer.endMark_kind (Text.trim input))
  have hok : (Expr.parse (Text.trim input)).isOk = true :=
    Expr.parse_isOk_iff.2 ⟨e', hstandalone⟩
  unfold eval
  simp only
  rw [if_neg hne, if_pos hok]

/-- The session with a piece printed at its end. -/
def printing (s : Session) (piece : String) : Session :=
  { s with stmts := s.stmts ++ ["print " ++ piece] }

theorem exists_tokens_printing (s : Session) (piece : String) :
    ∃ word here, (Lexer.tokens (s.printing piece).source) =
      Lexer.tokens s.source ++ word :: Lexer.scan here piece.toList ∧
        word.kind = .printWord ∧ word.lexeme = "print" := by
  have hpieces : (s.printing piece).source =
      "\n".intercalate (s.funcs ++ s.vars ++ s.stmts ++ ["print " ++ piece]) := by
    rw [source, printing, List.append_assoc _ s.stmts]
  obtain ⟨there, htokens, -⟩ :=
    Lexer.tokens_intercalate_append (s.funcs ++ s.vars ++ s.stmts) ["print " ++ piece]
  rw [String.intercalate_singleton] at htokens
  obtain ⟨here, hscan⟩ := Lexer.exists_scan_print there piece
  exact ⟨_, here, by rw [hpieces, htokens, hscan]; rfl, rfl, rfl⟩

/-- An expression printed at the end of a valid program gives a program that ends so. -/
theorem exists_endsPrinting {tree : Script Extent}
    (htree : Grammar.Program (Lexer.allTokens s.source) tree) (hformed : tree.WellFormed)
    (h : Expr.parse input = .ok e) :
    ∃ script note value Γ, Script.parse (s.printing (Text.trim input)).source = .ok script ∧
      script.EndsPrinting note value Γ ∧ tree.MainContext Γ ∧
      value.map Tag.text = e.map Tag.text ∧
      ∀ node ∈ value.walk fun _ ↦ false, node.note.text ≠ note.text := by
  obtain ⟨word, here, htokens, hword, hlexeme⟩ := s.exists_tokens_printing (Text.trim input)
  obtain ⟨e', he', htext⟩ := Expr.exists_expression h here
  have hstop : (Lexer.endMark (s.printing (Text.trim input)).source).kind = .eof := rfl
  obtain ⟨tree', Γ, hprogram, hends, hcontext⟩ := htree.exists_endsPrinting
    (Script.written_of_program htree) hformed hword he' hstop
  rw [← htokens] at hprogram
  rw [← Script.map_number tree'] at hends
  obtain ⟨note, value, hprints, hnote, hvalue⟩ := hends.of_map
  refine ⟨tree'.number, note, value, Γ, Script.parse_eq_ok_iff.2 ⟨tree', hprogram, rfl⟩, hprints,
    hcontext, ?_, ?_⟩
  · rw [← Expr.map_text_extent, hvalue, htext]
  · intro node hnode
    have hmem : node.map Tag.extent ∈ e'.walk fun _ ↦ false := by
      rw [← hvalue, Expr.walk_map]
      exact List.mem_map_of_mem hnode
    have hne := he'.text_ne (hlexeme ▸ (by decide : "print" ≠ "")) _ hmem
    rwa [Node.note_map, ← hnote] at hne

theorem lastPrinted?_of_endsPrinting {script : Script Tag} {note : Tag} {value : Expr Tag}
    {Γ : Context} (h : script.EndsPrinting note value Γ) :
    lastPrinted? script = some (value, note.text) := by
  obtain ⟨b, before, hmain, hstmts, -⟩ := h.main
  rw [lastPrinted?, hmain, Option.bind_some, hstmts, List.getLast?_concat]

/-- An expression printed at the end of a program is answered with its type if the program calls for
no report of it, and else with those reports. -/
theorem typeOf_cases {piece : String} {script : Script Tag} {note : Tag} {value : Expr Tag}
    {Γ : Context} (hparse : Script.parse (s.printing piece).source = .ok script)
    (h : script.EndsPrinting note value Γ)
    (htexts : ∀ node ∈ value.walk fun _ ↦ false, node.note.text ≠ note.text) :
    s.options.Silent (value.infer Γ.env).events ∧
        s.typeOf piece = .ok (value.infer Γ.env).type.text ∨
      ¬ s.options.Silent (value.infer Γ.env).events ∧
        ∃ causes, s.typeOf piece = .error (.invalid causes) ∧ causes ≠ [] ∧
          ∀ cause ∈ causes, cause.category ≠ .unprintableExpression := by
  have hanalyze : { s with stmts := s.stmts ++ ["print " ++ piece] }.analyze =
      .ok (script, script.analyze s.options) := congrArg (Except.map _) hparse
  have htype := h.types_get? hparse s.options
  have hcauses : (script.analyze s.options).log.entries.filter (fun e ↦
      !(e.category = .unprintableExpression && e.source = note.text)) = _ :=
    h.filter_log hparse htexts s.options
  have hempty : ((s.options.entries (value.infer Γ.env).events).foldl Log.add .empty).isEmpty =
      true ↔ s.options.Silent (value.infer Γ.env).events :=
    (Log.isEmpty_foldl_add.trans (and_iff_right rfl)).trans Options.entries_eq_nil_iff
  unfold typeOf
  rw [hanalyze]
  simp only [lastPrinted?_of_endsPrinting h, hcauses, htype, Option.map_some, Option.getD_some]
  split
  · next hnone => exact .inl ⟨hempty.1 hnone, rfl⟩
  · next hsome =>
    refine .inr ⟨mt hempty.2 hsome, _, rfl, mt List.isEmpty_iff.2 hsome, ?_⟩
    intro cause hcause
    rcases Log.mem_of_mem_foldl_add hcause with hmem | hmem
    · exact Expr.category_of_mem_entries hmem
    · cases hmem

theorem typeOf_eq_ok_iff {tree : Script Extent}
    (htree : Grammar.Program (Lexer.allTokens s.source) tree) (hformed : tree.WellFormed)
    (h : Expr.parse input = .ok e) :
    ∃ Γ, tree.MainContext Γ ∧ ∀ text, s.typeOf (Text.trim input) = .ok text ↔
      ∃ type, HasType Γ.env e type ∧ type.text = text := by
  obtain ⟨script, note, value, Γ, hparse, hends, hcontext, hvalue, htexts⟩ :=
    exists_endsPrinting htree hformed h
  obtain ⟨hproper, -⟩ := hends.exists_events (Script.written_of_parse hparse) s.options
  have hsame (type : Ty) : HasType Γ.env e type ↔ HasType Γ.env value type :=
    ⟨fun htype ↦ htype.of_map_eq hvalue.symm, fun htype ↦ htype.of_map_eq hvalue⟩
  refine ⟨Γ, hcontext, ?_⟩
  intro text
  simp only [hsame, hasType_iff s.options hproper]
  rcases typeOf_cases hparse hends htexts with ⟨hsilent, hanswer⟩ | ⟨hreported, causes, hanswer, -⟩
  · simp [hanswer, hsilent]
  · simp [hanswer, hreported]

theorem exists_tree_declared : ∃ tree,
    Grammar.Program (Lexer.allTokens (initial.extend "var n:Int").source) tree ∧
      tree.WellFormed ∧ ∀ Γ, tree.MainContext Γ → Γ.env "n" = some .int := by
  -- The shape of the tree is written out; its notes are what the source gives them.
  obtain ⟨_, _, _, _, _, hscript⟩ : ∃ a b c d e,
      Script.parse (initial.extend "var n:Int").source =
        .ok ⟨a, [], some ⟨b, ⟨c, [⟨d, "n", "Int", none⟩]⟩, .mk e []⟩⟩ := by
    refine ⟨?_, ?_, ?_, ?_, ?_, ?parse⟩
    case parse =>
      cbv
      rfl
  refine ⟨_, Script.program_of_parse hscript,
    ⟨List.nodup_nil, [], rfl, List.forall_mem_nil _, ?_⟩, ?_⟩
  · rintro main ⟨⟩
    exact ⟨_, .cons rfl rfl (by rintro _ ⟨⟩) .nil, .mk .nil⟩
  · rintro Γ ⟨main, ⟨⟩, hdeclares⟩
    cases hdeclares with
    | cons hname htype hinit hs =>
      cases htype
      cases hs
      rfl

theorem reachable_declared : (initial.extend "var n:Int").Reachable true := by
  have hreached : (initial.eval "var n:Int").1.Reachable true := .eval .initial _
  have htrim : Text.trim "var n:Int" = "var n:Int" := by cbv
  have heval := @eval_of_valid initial "var n:Int"
  rw [htrim] at heval
  obtain ⟨tree, htree, hformed, -⟩ := exists_tree_declared
  rw [heval (by simp) (by cbv) ⟨tree, htree, hformed⟩] at hreached
  exact hreached

theorem exists_eval_declared : ∃ e, Expr.parse "(n+1)" = .ok e ∧
    ((initial.extend "var n:Int").eval "(n+1)").2 = .ok "Int" := by
  obtain ⟨_, _, _, _, hexpr⟩ : ∃ a b c d, Expr.parse "(n+1)" =
      .ok (.parens a (.binary b .plus (.ident c "n") (.int d "1"))) := by
    refine ⟨?_, ?_, ?_, ?_, ?parse⟩
    case parse =>
      cbv
      rfl
  obtain ⟨tree, htree, hformed, hknown⟩ := exists_tree_declared
  obtain ⟨Γ, hΓ, hanswer⟩ := typeOf_eq_ok_iff htree hformed hexpr
  refine ⟨_, hexpr, ?_⟩
  rw [eval_of_expression hexpr, hanswer]
  exact ⟨.int, .parens (.arithmetic (by decide) (.ident (hknown Γ hΓ)) .int), rfl⟩

end Session

/-- The program of every session that is reached is valid, and a piece that is refused leaves the
session as it is. An expression does so too. It is read as the value that the last statement of the
program with it prints, and answered with its type if nothing is reported of it there, which is a
type other than `error`. Else it is refused, for causes of which there is at least one and none that
it cannot be printed. -/
theorem reachable_session_answers {parenReports : Bool} {s : Session}
    (h : s.Reachable parenReports) :
    (∃ script report, s.analyze = .ok (script, report) ∧ report.log.entries = []) ∧
    (∀ input refusal, (s.eval input).2 = .error refusal → (s.eval input).1 = s) ∧
    ∀ input e, Expr.parse input = .ok e → (s.eval input).1 = s ∧
      ∃ script main note value,
        Script.parse (s.printing (Text.trim input)).source = .ok script ∧
        script.main = some main ∧ main.block.stmts.getLast? = some (.print note value) ∧
        value.map Tag.text = e.map Tag.text ∧
        (¬ value.Reported s.options (Node.script script).secondWalk.events ∧
            (∃ type, type ≠ .error ∧ (s.eval input).2 = .ok type.text ∧
              (script.analyze s.options).types.get? value.note.id = some type) ∨
          value.Reported s.options (Node.script script).secondWalk.events ∧
            ∃ causes, (s.eval input).2 = .error (.invalid causes) ∧ causes ≠ [] ∧
              ∀ cause ∈ causes, cause.category ≠ .unprintableExpression) := by
  refine ⟨h.valid.exists_analyze, fun _ _ ↦ Session.eval_of_error, ?_⟩
  intro input e he
  obtain ⟨tree, htree, hformed⟩ := h.valid
  obtain ⟨script, note, value, Γ, hparse, hends, -, hvalue, htexts⟩ :=
    Session.exists_endsPrinting htree hformed he
  obtain ⟨main, before, hmain, hstmts, -⟩ := hends.main
  have hlast : main.block.stmts.getLast? = some (.print note value) := by
    rw [hstmts, List.getLast?_concat]
  have hreported := hends.reported_iff hparse s.options
  rw [Session.eval_of_expression he]
  refine ⟨rfl, script, main, note, value, hparse, hmain, hlast, hvalue, ?_⟩
  rcases Session.typeOf_cases hparse hends htexts with ⟨hsilent, hanswer⟩ | ⟨hloud, hanswer⟩
  · obtain ⟨hproper, -⟩ := hends.exists_events (Script.written_of_parse hparse) s.options
    exact .inl ⟨fun h ↦ hreported.1 h hsilent, _, (Expr.hasType_of_silent hproper value hsilent).1,
      hanswer, hends.types_get? hparse s.options⟩
  · exact .inr ⟨hreported.2 hloud, hanswer⟩

/-- A variable that was declared is known to the expressions that follow. -/
theorem reachable_session_answers_declared : ∃ s e script main note value,
    s = Session.initial.extend "var n:Int" ∧ s.Reachable true ∧ Expr.parse "(n+1)" = .ok e ∧
      (s.eval "(n+1)").1 = s ∧
      Script.parse (s.printing (Text.trim "(n+1)")).source = .ok script ∧
      script.main = some main ∧ main.block.stmts.getLast? = some (.print note value) ∧
      value.map Tag.text = e.map Tag.text ∧
      ¬ value.Reported s.options (Node.script script).secondWalk.events ∧
      (s.eval "(n+1)").2 = .ok "Int" := by
  obtain ⟨e, hexpr, hanswer⟩ := Session.exists_eval_declared
  obtain ⟨-, -, hexpressions⟩ := reachable_session_answers Session.reachable_declared
  obtain ⟨hsame, script, main, note, value, hparse, hmain, hlast, hvalue, hcases⟩ :=
    hexpressions "(n+1)" e hexpr
  refine ⟨_, e, script, main, note, value, rfl, Session.reachable_declared, hexpr, hsame, hparse,
    hmain, hlast, hvalue, ?_, hanswer⟩
  rcases hcases with ⟨hsilent, -⟩ | ⟨-, causes, hrefused, -⟩
  · exact hsilent
  · cases hanswer.symm.trans hrefused

end ScriptAnalysis
