import ScriptAnalysis.Proofs.Continuation
import ScriptAnalysis.Proofs.Joining
import ScriptAnalysis.Proofs.Validity
import ScriptAnalysis.Session.Command

/-!
# What sessions keep

Evaluations and commands leave a session as it is, empty it, or add one piece with which its program
is valid. So whatever holds of an empty session and stays with such a piece holds of every session
that is ever reached; above all, the program of a session that is reached is valid.
-/

namespace ScriptAnalysis

theorem Script.program_of_parse {source : String} {script : Script Tag}
    (h : Script.parse source = .ok script) :
    Grammar.Program (Lexer.allTokens source) (script.map Tag.extent) := by
  obtain ⟨tree, htree, rfl⟩ := Script.parse_eq_ok_iff.1 h
  rw [Script.map_number]
  exact htree

theorem Script.isOk_analyze_number {source : String} {tree : Script Extent}
    (h : Grammar.Program (Lexer.allTokens source) tree) (options : Options) :
    (tree.number.analyze options).isOk = true ↔ tree.WellFormed := by
  have hwritten : tree.number.Written :=
    Script.written_of_parse (Script.parse_eq_ok_iff.2 ⟨tree, h, rfl⟩)
  have hcheck := @Script.LaidOut.check options _ _ tree.number.declare_laidOut hwritten
  have hmap := @Script.wellFormed_map _ _ Tag.extent tree.number
  rw [Script.map_number] at hmap
  rw [Script.isOk_analyze_iff, hcheck.2, hmap]

namespace Session

/-- Whether evaluations and commands lead to a session from one without pieces. -/
inductive Reachable (parenReports : Bool) : Session → Prop
  | initial : Reachable parenReports { initial with options := ⟨parenReports, false⟩ }
  | eval {s : Session} (h : Reachable parenReports s) (input : String) :
    Reachable parenReports (s.eval input).1
  | command {s : Session} (h : Reachable parenReports s) (palette : Text.Palette) (text : String) :
    Reachable parenReports (s.command palette text).1

/-- Whether the pieces of a session make up a valid program. -/
def Valid (s : Session) : Prop :=
  ∃ tree, Grammar.Program (Lexer.allTokens s.source) tree ∧ tree.WellFormed

variable {s : Session} {input : String}

theorem valid_of_analyze {script : Script Tag} {report : Report}
    (h : s.analyze = .ok (script, report)) (hok : report.isOk = true) : s.Valid := by
  obtain ⟨script', hparse, hpair⟩ := map_eq_ok_iff.1 h
  obtain ⟨rfl, rfl⟩ := Prod.mk.inj hpair
  obtain ⟨tree, htree, rfl⟩ := Script.parse_eq_ok_iff.1 hparse
  exact ⟨tree, htree, (Script.isOk_analyze_number htree s.options).1 hok⟩

theorem Valid.exists_analyze (h : s.Valid) :
    ∃ script report, s.analyze = .ok (script, report) ∧ report.log.entries = [] := by
  obtain ⟨tree, htree, hformed⟩ := h
  have hparse : Script.parse s.source = .ok tree.number :=
    Script.parse_eq_ok_iff.2 ⟨tree, htree, rfl⟩
  have hok : (tree.number.analyze s.options).log.isEmpty = true :=
    (Script.isOk_analyze_number htree s.options).2 hformed
  refine ⟨tree.number, tree.number.analyze s.options, ?_, List.isEmpty_iff.1 hok⟩
  rw [analyze, hparse]
  rfl

/-- An evaluation adds its piece if the program with it is valid, and else leaves the session as it
is. -/
theorem eval_cases (s : Session) (input : String) :
    (s.eval input).1 = s ∨
      s.eval input = (s.extend (Text.trim input), .ok "ok") ∧
        (s.extend (Text.trim input)).Valid := by
  unfold eval
  simp only
  split
  · exact .inl rfl
  split
  · exact .inl rfl
  cases hanalyze : (s.extend (Text.trim input)).analyze with
  | error e => exact .inl rfl
  | ok result =>
    obtain ⟨script, report⟩ := result
    simp only
    split
    · next hok => exact .inr ⟨rfl, valid_of_analyze hanalyze hok⟩
    · exact .inl rfl

/-- A piece that is no expression is taken if the program with it is valid. -/
theorem eval_of_valid (hpiece : Text.trim input ≠ "")
    (hexpr : (Expr.parse (Text.trim input)).isOk = false)
    (hvalid : (s.extend (Text.trim input)).Valid) :
    s.eval input = (s.extend (Text.trim input), .ok "ok") := by
  obtain ⟨script, report, hanalyze, hlog⟩ := hvalid.exists_analyze
  have hok : report.isOk = true := List.isEmpty_iff.2 hlog
  unfold eval
  simp only [hanalyze, hok]
  rw [if_neg hpiece, hexpr]
  rfl

theorem valid_of_eval (hexpr : (Expr.parse (Text.trim input)).isOk = false)
    (heval : (s.eval input).2 = .ok "ok") : (s.extend (Text.trim input)).Valid := by
  unfold eval at heval
  simp only [hexpr, Bool.false_eq_true, if_false] at heval
  split at heval
  · simp at heval
  cases hanalyze : (s.extend (Text.trim input)).analyze with
  | error e =>
    rw [hanalyze] at heval
    cases heval
  | ok result =>
    obtain ⟨script, report⟩ := result
    rw [hanalyze] at heval
    simp only at heval
    split at heval
    · next hok => exact valid_of_analyze hanalyze hok
    · cases heval

theorem eval_of_error {refusal : Refusal} (h : (s.eval input).2 = .error refusal) :
    (s.eval input).1 = s := by
  rcases s.eval_cases input with hsame | ⟨heval, -⟩
  · exact hsame
  · rw [heval] at h
    cases h

/-- A command empties the session if it is the one to do so, and else leaves it as it is. -/
theorem command_cases (palette : Text.Palette) (s : Session) (text : String) :
    (s.command palette text).1 = s ∨
      Command.ofText? text = some .reset ∧ (s.command palette text).1 = s.reset := by
  unfold command
  cases Command.ofText? text with
  | none => exact .inl rfl
  | some command =>
    cases command with
    | reset => exact .inr ⟨rfl, rfl⟩
    | scopes => cases s.analyze <;> exact .inl rfl
    | _ => exact .inl rfl

/-- What holds of empty sessions, and of a session with one more piece if its program is valid,
holds of every session that is reached. -/
theorem Reachable.keeps {parenReports : Bool} {P : Session → Prop}
    (hempty : ∀ options, P ⟨[], [], [], options⟩)
    (hextend : ∀ s piece, P s → (s.extend piece).Valid → P (s.extend piece))
    (h : Reachable parenReports s) : P s := by
  induction h with
  | initial => exact hempty _
  | @eval s h input ih =>
    rcases s.eval_cases input with hsame | ⟨heval, hvalid⟩
    · rw [hsame]
      exact ih
    · rw [heval]
      exact hextend s _ ih hvalid
  | @command s h palette text ih =>
    rcases command_cases palette s text with hsame | ⟨-, hreset⟩
    · rw [hsame]
      exact ih
    · rw [hreset]
      exact hempty s.options

theorem valid_empty (options : Options) : Valid ⟨[], [], [], options⟩ := by
  have htokens : Lexer.allTokens (source ⟨[], [], [], options⟩) = [Lexer.endMark ""] := by
    have hsource : source ⟨[], [], [], options⟩ = "" := String.intercalate_nil
    rw [hsource, Lexer.allTokens, Lexer.tokens_empty]
    rfl
  have htree := Grammar.Program.mk .nil (.mk .nil (@Grammar.Statements.nil (Lexer.endMark ""))) rfl
  rw [Valid, htokens]
  refine ⟨_, htree, List.nodup_nil, [], rfl, by simp, ?_⟩
  rintro _ ⟨⟩
  exact ⟨_, .nil, .mk .nil⟩

theorem Reachable.valid {parenReports : Bool} (h : Reachable parenReports s) : s.Valid :=
  h.keeps valid_empty fun _ _ _ hvalid ↦ hvalid

end Session

end ScriptAnalysis
