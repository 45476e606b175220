import ScriptAnalysis.Proofs.FirstError
import ScriptAnalysis.Session.Console

/-!
# More input is asked for exactly when it can help

What stops in the middle of a construct can be completed by further lines: each token that is
missing is written on a line of its own. What fails at one of its tokens fails there with further
lines as well, since these leave the tokens before them as they are.
-/

namespace ScriptAnalysis

namespace Lexer

/-- The characters of a piece that is a whole source are its only token. -/
theorem scan_piece {here : Nat × Nat} {c : Char} {rest : List Char} {kind : Kind}
    (h : piece c rest = (some kind, rest.length)) :
    scan here (c :: rest) = [⟨kind, String.ofList (c :: rest), here.1, here.2⟩] := by
  rw [scan, h]
  simp [scan]

theorem exists_spelling {kind : Kind} (hkind : kind ∈ Grammar.closing) :
    ∃ word : String, ∀ here, ∃ t, scan here word.toList = [t] ∧ t.kind = kind := by
  have hpiece : ∀ c rest, piece c rest = (some kind, rest.length) →
      ∃ word : String, ∀ here, ∃ t, scan here word.toList = [t] ∧ t.kind = kind := by
    intro c rest h
    refine ⟨String.ofList (c :: rest), fun here ↦ ?_⟩
    rw [String.toList_ofList, scan_piece h]
    exact ⟨_, rfl, rfl⟩
  simp only [Grammar.closing, List.mem_cons, List.not_mem_nil, or_false] at hkind
  rcases hkind with rfl | rfl | rfl | rfl | rfl | rfl | rfl | rfl | rfl
  · exact hpiece 'a' [] (by decide)
  · exact hpiece '0' [] (by decide)
  · exact hpiece 'I' ['n', 't'] (by decide)
  · exact hpiece '(' [] (by decide)
  · exact hpiece ')' [] (by decide)
  · exact hpiece '{' [] (by decide)
  · exact hpiece '}' [] (by decide)
  · exact hpiece ':' [] (by decide)
  · exact hpiece '=' [] (by decide)

end Lexer

namespace Parser

open Grammar

variable {α : Type} {derives : List Token → α → Prop}

/-- What tokens of the closing kinds complete, further lines complete. -/
theorem exists_lines_of_completable {ts : List Token} (h : Completable (Marked derives) ts)
    {source : String} (hts : Lexer.tokens source = ts) :
    ∃ more x, derives (Lexer.allTokens (source ++ "\n" ++ more)) x := by
  induction h generalizing source with
  | done h =>
    obtain ⟨x, hx⟩ := h (Lexer.endMark (source ++ "\n" ++ "")) (Lexer.endMark_kind _)
    refine ⟨"", x, ?_⟩
    rw [Lexer.allTokens, Lexer.tokens_append_newline, hts]
    simpa [Lexer.scan] using hx
  | @more ts kind hkind _ ih =>
    obtain ⟨word, hword⟩ := Lexer.exists_spelling hkind
    obtain ⟨t, hscan, ht⟩ := hword ((Lexer.advance (1, 1) source.toList).1 + 1, 1)
    have htokens : Lexer.tokens (source ++ "\n" ++ word) = ts ++ [t] := by
      rw [Lexer.tokens_append_newline, hts, hscan]
    obtain ⟨more, x, hx⟩ := ih t ht htokens
    refine ⟨word ++ "\n" ++ more, x, ?_⟩
    simpa only [String.append_assoc] using hx

theorem isIncomplete_unexpected (t : Token) (expected : Expected) :
    (SyntaxError.unexpected t expected).isIncomplete = true ↔ t.kind = .eof := by
  simp only [SyntaxError.unexpected, SyntaxError.isIncomplete]
  generalize t.kind = kind
  cases kind with
  | illegal => by_cases hquote : t.lexeme.toList.head? = some '"' <;> simp [hquote]
  | _ => simp

/-- A rejected source stops in the middle of a construct exactly if further lines complete it. -/
theorem SourceOutcome.isIncomplete_iff {read : List Token → Except SyntaxError α} {source : String}
    {e : SyntaxError} (h : SourceOutcome (Lexer.endMark source) derives read (Lexer.tokens source))
    (hreads : Reads derives read) (hread : read (Lexer.tokens source) = .error e) :
    e.isIncomplete = true ↔ ∃ more x, derives (Lexer.allTokens (source ++ "\n" ++ more)) x := by
  rw [SourceOutcome, hread] at h
  obtain ⟨before, rest, hts, hstuck⟩ := h
  cases rest with
  | nil =>
    have hincomplete : e.isIncomplete = true := by
      rcases hstuck.blame with ⟨expected, rfl⟩ | ⟨-, hvar⟩
      · exact (isIncomplete_unexpected _ _).2 (Lexer.endMark_kind source)
      · exact absurd ((Lexer.endMark_kind source).symm.trans hvar) (by decide)
    simp only [hincomplete, true_iff]
    exact exists_lines_of_completable hstuck.viable (by simpa using hts)
  | cons t later =>
    have ht : t.kind ≠ .eof := by
      apply Lexer.scan_kind_ne_eof
      rw [← Lexer.tokens, hts]
      simp
    have hincomplete : e.isIncomplete = false := by
      rcases hstuck.blame with ⟨expected, rfl⟩ | ⟨rfl, -⟩
      · rw [← Bool.not_eq_true, isIncomplete_unexpected]
        exact ht
      · rfl
    simp only [hincomplete, Bool.false_eq_true, false_iff]
    rintro ⟨more, x, hx⟩
    apply hstuck.not_viable hreads rfl (.inl rfl) ht
    rw [Lexer.allTokens, Lexer.tokens_append_newline, hts] at hx
    exact ⟨_, x, by simpa using hx⟩

end Parser

/-- Whether a source is read as a program or as an expression. -/
def Accepted (source : String) : Prop :=
  (Script.parse source).isOk = true ∨ (Expr.parse source).isOk = true

/-- Whether further lines make a source that is not accepted into one that is. -/
def CanBeCompleted (source : String) : Prop :=
  ¬ Accepted source ∧ ∃ more, Accepted (source ++ "\n" ++ more)

theorem isOk_iff_exists {ε α : Type} {r : Except ε α} : r.isOk = true ↔ ∃ x, r = .ok x := by
  cases r <;> simp [Except.isOk, Except.toBool]

theorem Script.parse_isOk_iff {source : String} :
    (Script.parse source).isOk = true ↔ ∃ tree, Grammar.Program (Lexer.allTokens source) tree := by
  simp only [isOk_iff_exists, Script.parse_eq_ok_iff]
  constructor
  · rintro ⟨_, tree, htree, -⟩
    exact ⟨tree, htree⟩
  · rintro ⟨tree, htree⟩
    exact ⟨_, tree, htree, rfl⟩

theorem Expr.parse_isOk_iff {source : String} :
    (Expr.parse source).isOk = true ↔ ∃ tree, Grammar.Standalone (Lexer.allTokens source) tree := by
  simp only [isOk_iff_exists, Expr.parse_eq_ok_iff]
  constructor
  · rintro ⟨_, tree, htree, -⟩
    exact ⟨tree, htree⟩
  · rintro ⟨tree, htree⟩
    exact ⟨_, tree, htree, rfl⟩

theorem Script.isIncomplete_iff {source : String} {e : SyntaxError}
    (h : Script.parse source = .error e) :
    e.isIncomplete = true ↔ ∃ more, (Script.parse (source ++ "\n" ++ more)).isOk = true := by
  have hmark := Lexer.endMark_kind source
  rw [Script.parse, map_eq_error_iff] at h
  simp only [Script.parse_isOk_iff]
  exact (Parser.script_outcome hmark Lexer.scan_kind_ne_eof).isIncomplete_iff
    (Parser.reads_script hmark) h

theorem Expr.isIncomplete_iff {source : String} {e : SyntaxError}
    (h : Expr.parse source = .error e) :
    e.isIncomplete = true ↔ ∃ more, (Expr.parse (source ++ "\n" ++ more)).isOk = true := by
  have hmark := Lexer.endMark_kind source
  rw [Expr.parse, map_eq_error_iff] at h
  simp only [Expr.parse_isOk_iff]
  exact (Parser.wholeExpression_outcome hmark _).isIncomplete_iff
    (Parser.reads_wholeExpression hmark) h

theorem isIncomplete_iff_canBeCompleted (source : String) :
    isIncomplete source = true ↔ CanBeCompleted source := by
  unfold isIncomplete CanBeCompleted Accepted
  cases hscript : Script.parse source with
  | ok s => simp [Except.isOk, Except.toBool]
  | error asScript =>
    cases hexpr : Expr.parse source with
    | ok e => simp [Except.isOk, Except.toBool]
    | error asExpr =>
      simp only [Bool.or_eq_true, Script.isIncomplete_iff hscript, Expr.isIncomplete_iff hexpr,
        Except.isOk, Except.toBool, Bool.false_eq_true, or_self, not_false_eq_true, true_and,
        exists_or]

/-- The bytes of the lines that a console has gathered with one more line. -/
def Console.gathered (c : Console) (line : List UInt8) : List UInt8 :=
  if c.pending.isEmpty then line else c.pending ++ InputLine.lineFeed :: line

theorem Console.feed_eq (palette : Text.Palette) (c : Console) (line : List UInt8) :
    c.feed palette line =
      if isIncomplete (Text.ofBytes (c.gathered line)) then
        ({ c with pending := c.gathered line }, .none, false)
      else if Text.trim (Text.ofBytes (c.gathered line)) = "" then
        ({ c with pending := [] }, .none, false)
      else
        submit palette
          { c with pending := [], history := c.history.add (flatten (c.gathered line)) }
          (Text.trim (Text.ofBytes (c.gathered line))) := rfl

theorem Console.pending_submit (palette : Text.Palette) (c : Console) (code : String) :
    (c.submit palette code).1.pending = c.pending := by
  unfold submit
  split <;> rfl

theorem Console.pending_feed {palette : Text.Palette} {c : Console} {line : List UInt8}
    (h : ¬ isIncomplete (Text.ofBytes (c.gathered line)) = true) :
    (c.feed palette line).1.pending = [] := by
  rw [feed_eq, if_neg h]
  split
  · rfl
  · exact pending_submit _ _ _

/-- A source stops in the middle of a construct exactly if it is rejected and further lines can make
it accepted. So a console goes on gathering lines exactly if further lines can help, and otherwise
hands on what it has gathered. -/
theorem feed_waits_iff_completed :
    (∀ source, isIncomplete source = true ↔
      ¬ Accepted source ∧ ∃ more, Accepted (source ++ "\n" ++ more)) ∧
    ∀ (palette : Text.Palette) (c : Console) (line : List UInt8),
      (CanBeCompleted (Text.ofBytes (c.gathered line)) →
        c.feed palette line = ({ c with pending := c.gathered line }, .none, false)) ∧
      (¬ CanBeCompleted (Text.ofBytes (c.gathered line)) →
        (c.feed palette line).1.pending = []) := by
  refine ⟨isIncomplete_iff_canBeCompleted, fun palette c line ↦ ⟨fun h ↦ ?_, fun h ↦ ?_⟩⟩
  · rw [Console.feed_eq, if_pos ((isIncomplete_iff_canBeCompleted _).2 h)]
  · rw [← isIncomplete_iff_canBeCompleted] at h
    exact Console.pending_feed h

end ScriptAnalysis
