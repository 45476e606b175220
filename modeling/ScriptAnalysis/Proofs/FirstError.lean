import Mathlib
import ScriptAnalysis.Diagnostic.Message
import ScriptAnalysis.Proofs.Recognition

/-!
# Syntax errors are reported at the first hopeless token

Where a source is rejected, the diagnostic lies at a token up to which the source could have been
completed and after which it could not, and the code of the diagnostic tells what is wrong with that
token.
-/

namespace ScriptAnalysis

namespace Grammar

/-- Whether none of the tokens marks the end of a source. -/
def Unmarked (ts : List Token) : Prop := ∀ t ∈ ts, t.kind ≠ .eof

@[simp] theorem unmarked_nil : Unmarked [] := by simp [Unmarked]

@[simp] theorem unmarked_cons {t : Token} {ts : List Token} :
    Unmarked (t :: ts) ↔ t.kind ≠ .eof ∧ Unmarked ts := by
  simp [Unmarked]

@[simp] theorem unmarked_append {ts us : List Token} :
    Unmarked (ts ++ us) ↔ Unmarked ts ∧ Unmarked us := by
  simp [Unmarked, or_imp, forall_and]

mutual

theorem Expression.unmarked {level : Nat} {ts : List Token} {e : Expr Extent} :
    Expression level ts e → Unmarked ts
  | .unary h => h.unmarked
  | .operand h => h.unmarked
  | .operation hl hop _ hr => by
    refine unmarked_append.2 ⟨hl.unmarked, unmarked_cons.2 ⟨?_, hr.unmarked⟩⟩
    intro hend
    simp [hend, Operator.ofKind?] at hop

theorem Unary.unmarked {ts : List Token} {e : Expr Extent} : Unary ts e → Unmarked ts
  | .negate ht h => unmarked_cons.2 ⟨by rcases ht with ht | ht <;> simp [ht], h.unmarked⟩
  | .primary h => h.unmarked

theorem Primary.unmarked {ts : List Token} {e : Expr Extent} : Primary ts e → Unmarked ts
  | .int ht | .string ht | .true ht | .false ht | .ident ht => by simp [ht]
  | .call h => h.unmarked
  | .parens hl h hr => by simp [hl, hr, h.unmarked]

theorem Call.unmarked {ts : List Token} {note : Extent} {callee : String}
    {args : List (Expr Extent)} : Call ts note callee args → Unmarked ts
  | .mk hn hl h => by simp [hn, hl, h.unmarked]

theorem Arguments.unmarked {ts : List Token} {args : List (Expr Extent)} :
    Arguments ts args → Unmarked ts
  | .none hr => by simp [hr]
  | .some h => h.unmarked

theorem ArgumentList.unmarked {ts : List Token} {args : List (Expr Extent)} :
    ArgumentList ts args → Unmarked ts
  | .last h hr => by simp [hr, h.unmarked]
  | .more h hc hs => by simp [hc, h.unmarked, hs.unmarked]

end

mutual

theorem Statement.unmarked {ts : List Token} {next : Token} {s : Stmt Extent} :
    Statement ts next s → Unmarked ts
  | .assign hn heq h => by simp [hn, heq, h.unmarked]
  | .call h => h.unmarked
  | .loop hw h hb => by simp [hw, h.unmarked, hb.unmarked]
  | .branch hw h ht => by simp [hw, h.unmarked, ht.unmarked]
  | .branchElse hw h ht ho hf => by simp [hw, ho, h.unmarked, ht.unmarked, hf.unmarked]
  | .print hw h => by simp [hw, h.unmarked]
  | .ret hw _ => by simp [hw]
  | .retValue hw _ h => unmarked_cons.2 ⟨by simp [hw], h.unmarked⟩

theorem Statements.unmarked {ts : List Token} {next : Token} {ss : List (Stmt Extent)} :
    Statements ts next ss → Unmarked ts
  | .nil => unmarked_nil
  | .cons h hs => unmarked_append.2 ⟨h.unmarked, hs.unmarked⟩

theorem BraceBlock.unmarked {ts : List Token} {b : Block Extent} : BraceBlock ts b → Unmarked ts
  | .mk hl h hr => by simp [hl, hr, h.unmarked]

end

theorem Declaration.unmarked {ts : List Token} {d : VarDecl Extent} :
    Declaration ts d → Unmarked ts
  | .plain hw hn hc ht => by simp [hw, hn, hc, ht]
  | .initial hw hn hc ht heq h => by simp [hw, hn, hc, ht, heq, h.unmarked]

theorem Declarations.unmarked {ts : List Token} {ds : List (VarDecl Extent)} :
    Declarations ts ds → Unmarked ts
  | .nil => unmarked_nil
  | .cons h hs => unmarked_append.2 ⟨h.unmarked, hs.unmarked⟩

theorem Parts.unmarked {ts : List Token} {next : Token} {vars : VarBlock Extent}
    {block : Block Extent} : Parts ts next vars block → Unmarked ts
  | .mk hd hs => unmarked_append.2 ⟨hd.unmarked, hs.unmarked⟩

theorem FunctionBody.unmarked {ts : List Token} {b : Body Extent} : FunctionBody ts b → Unmarked ts
  | .mk hl h hr => by simp [hl, hr, h.unmarked]

theorem Parameter.unmarked {ts : List Token} {p : Param Extent} : Parameter ts p → Unmarked ts
  | .mk hn hc ht => by simp [hn, hc, ht]

theorem ParameterList.unmarked {ts : List Token} {ps : List (Param Extent)} :
    ParameterList ts ps → Unmarked ts
  | .last h hr => by simp [hr, h.unmarked]
  | .more h hc hs => by simp [hc, h.unmarked, hs.unmarked]

theorem Parameters.unmarked {ts : List Token} {ps : List (Param Extent)} :
    Parameters ts ps → Unmarked ts
  | .none hr => by simp [hr]
  | .some h => h.unmarked

theorem ReturnType.unmarked {ts : List Token} {returns : String} :
    ReturnType ts returns → Unmarked ts
  | .none => unmarked_nil
  | .some hc ht => by simp [hc, ht]

theorem Function.unmarked {ts : List Token} {f : FuncDef Extent} : Function ts f → Unmarked ts
  | .mk hw hn hl hp hr hb => by simp [hw, hn, hl, hp.unmarked, hr.unmarked, hb.unmarked]

theorem Functions.unmarked {ts : List Token} {fs : List (FuncDef Extent)} :
    Functions ts fs → Unmarked ts
  | .nil => unmarked_nil
  | .cons h hs => unmarked_append.2 ⟨h.unmarked, hs.unmarked⟩

/-- Whether tokens behind `before` make it up to something derived. -/
def Viable {α : Type} (derives : List Token → α → Prop) (before : List Token) : Prop :=
  ∃ more x, derives (before ++ more) x

/-- Whether a statement may begin after `before`. Nothing but a statement begins with `print`. -/
def StatementExpected {α : Type} (derives : List Token → α → Prop) (before : List Token) : Prop :=
  ∃ word : Token, word.kind = .printWord ∧ Viable derives (before ++ [word])

theorem Completable.viable {α : Type} {derives : List Token → α → Prop} {before : List Token}
    (h : Completable (Parser.Marked derives) before) : Viable derives before := by
  induction h with
  | @done ts h =>
    obtain ⟨x, hx⟩ := h ⟨.eof, "", 0, 0⟩ rfl
    exact ⟨_, x, hx⟩
  | @more ts kind _ _ ih =>
    obtain ⟨others, x, hx⟩ := ih ⟨kind, "", 0, 0⟩ rfl
    exact ⟨_, x, by rwa [List.append_assoc] at hx⟩

/-- That a diagnostic lies at the token `t` after `before`, the first one that rules out everything
derived, and that its code tells what `t` is. -/
structure FirstHopeless {α : Type} (derives : List Token → α → Prop) (before : List Token)
    (t : Token) (d : Diagnostic) : Prop where
  span : d.span = t.span
  viable : Viable derives before
  hopeless : ¬ Viable derives (before ++ [t])
  unexpectedEnd : d.code = "NSX0005" ↔ t.kind = .eof
  unterminatedString : d.code = "NSX0002" ↔ t.kind = .illegal ∧ t.lexeme.toList.head? = some '"'
  unknownCharacter : d.code = "NSX0004" ↔ t.kind = .illegal ∧ t.lexeme.toList.head? ≠ some '"'
  lateDeclaration : d.code = "NSX0003" ↔ t.kind = .varWord ∧ StatementExpected derives before
  unexpectedToken : d.code = "NSX0001" ↔
    t.kind ≠ .eof ∧ t.kind ≠ .illegal ∧ ¬ (t.kind = .varWord ∧ StatementExpected derives before)

end Grammar

theorem SyntaxError.code_unexpected (t : Token) (expected : Expected) :
    (SyntaxError.unexpected t expected).code =
      if t.kind = .eof then "NSX0005"
      else if t.kind = .illegal then
        if t.lexeme.toList.head? = some '"' then "NSX0002" else "NSX0004"
      else "NSX0001" := by
  have hend : Catalog.code .parsing "unexpected_eof" = "NSX0005" := by decide
  have hstring : Catalog.code .parsing "unterminated_string" = "NSX0002" := by decide
  have hchar : Catalog.code .parsing "unknown_char" = "NSX0004" := by decide
  have htoken : Catalog.code .parsing "unexpected_token" = "NSX0001" := by decide
  rw [SyntaxError.code, SyntaxError.unexpected]
  split
  · next hkind => simp [hkind, SyntaxFault.key, hend]
  · next hkind =>
    simp only [hkind, reduceCtorEq, if_false, if_true]
    split
    · exact hstring
    · exact hchar
  · next hne hni =>
    rw [if_neg hne, if_neg hni]
    exact htoken

theorem SyntaxError.code_lateDeclaration (t : Token) :
    (⟨t, .lateDeclaration⟩ : SyntaxError).code = "NSX0003" := by
  have hcode : Catalog.code .parsing "decl_after_stmt" = "NSX0003" := by decide
  exact hcode

namespace Grammar

variable {α : Type} {derives : List Token → α → Prop} {before : List Token} {t : Token}

theorem FirstHopeless.of_unexpected {expected : Expected} (hviable : Viable derives before)
    (hhopeless : ¬ Viable derives (before ++ [t]))
    (hstatement : ¬ (t.kind = .varWord ∧ StatementExpected derives before)) :
    FirstHopeless derives before t (SyntaxError.unexpected t expected).diagnostic := by
  have hcode : (SyntaxError.unexpected t expected).diagnostic.code = _ :=
    SyntaxError.code_unexpected t expected
  refine ⟨rfl, hviable, hhopeless, ?_, ?_, ?_, ?_, ?_⟩
  all_goals
    rw [hcode]
    by_cases hend : t.kind = .eof
    · simp [hend]
    by_cases hillegal : t.kind = .illegal
    · by_cases hquote : t.lexeme.toList.head? = some '"' <;> simp [hillegal, hquote]
    simp [hend, hillegal, hstatement]

theorem FirstHopeless.of_lateDeclaration (hvar : t.kind = .varWord)
    (hviable : Viable derives before) (hhopeless : ¬ Viable derives (before ++ [t]))
    (hstatement : StatementExpected derives before) :
    FirstHopeless derives before t (⟨t, .lateDeclaration⟩ : SyntaxError).diagnostic := by
  have hcode : (⟨t, .lateDeclaration⟩ : SyntaxError).diagnostic.code = _ :=
    SyntaxError.code_lateDeclaration t
  refine ⟨rfl, hviable, hhopeless, ?_, ?_, ?_, ?_, ?_⟩
  all_goals
    rw [hcode]
    simp [hvar, hstatement]

end Grammar

namespace Parser

open Grammar

variable {endMark : Token} {α : Type} {derives : List Token → α → Prop}
  {read : List Token → Except SyntaxError α} {ts : List Token} {e : SyntaxError}

/-- What is derived ends with the only mark, and what stands before it is read. -/
def Reads (derives : List Token → α → Prop) (read : List Token → Except SyntaxError α) : Prop :=
  ∀ all x, derives all x →
    ∃ us stop, all = us ++ [stop] ∧ stop.kind = .eof ∧ Unmarked us ∧ ∃ y, read us = .ok y

/-- Something derived that begins with `before` either is `before` or has it before its mark. -/
theorem Reads.cases_of_append {before more : List Token} {x : α} (hreads : Reads derives read)
    (hx : derives (before ++ more) x) :
    (∃ us stop, before = us ++ [stop] ∧ stop.kind = .eof ∧ ∃ y, read us = .ok y) ∨
      ∃ more', Unmarked (before ++ more') ∧ ∃ y, read (before ++ more') = .ok y := by
  obtain ⟨us, stop, hus, hstop, hunmarked, hy⟩ := hreads _ _ hx
  rcases List.append_eq_append_iff.1 hus with ⟨more', rfl, -⟩ | ⟨last, rfl, hlast⟩
  · exact .inr ⟨more', hunmarked, hy⟩
  · cases last with
    | nil => exact .inr ⟨[], by simpa using hunmarked, by simpa using hy⟩
    | cons t others =>
      obtain ⟨rfl, rfl, -⟩ : stop = t ∧ others = [] ∧ more = [] := by simpa using hlast
      exact .inl ⟨us, stop, rfl, hstop, hy⟩

/-- Nothing is derived that begins with `before` and a token at which reading is bound to fail. -/
theorem StuckAt.not_viable {before rest : List Token} {t t' : Token}
    (h : StuckAt endMark (Marked derives) (fun us ↦ ∃ e, read us = .error e) e before rest)
    (hreads : Reads derives read) (ht : rest.head? = some t) (halike : Alike e t t')
    (ht' : t'.kind ≠ .eof) : ¬ Viable derives (before ++ [t']) := by
  rintro ⟨more, x, hx⟩
  rcases hreads.cases_of_append hx with ⟨us, stop, hus, hstop, -⟩ | ⟨more', -, y, hy⟩
  · obtain ⟨-, rfl⟩ : before = us ∧ t' = stop := by simpa using hus
    exact ht' hstop
  · obtain ⟨e', he'⟩ := h.hopeless t t' more' ht halike
    rw [List.append_assoc, List.singleton_append, he'] at hy
    cases hy

/-- Nothing is derived that begins with rejected tokens and the mark at their end. -/
theorem Reads.not_viable_mark (hreads : Reads derives read) (hmark : endMark.kind = .eof)
    (hread : read ts = .error e) : ¬ Viable derives (ts ++ [endMark]) := by
  rintro ⟨more, x, hx⟩
  rcases hreads.cases_of_append hx with ⟨us, stop, hus, -, y, hy⟩ | ⟨more', hunmarked, -⟩
  · obtain ⟨rfl, -⟩ : ts = us ∧ endMark = stop := by simpa using hus
    rw [hread] at hy
    cases hy
  · simp [hmark] at hunmarked

theorem SourceOutcome.firstHopeless (h : SourceOutcome endMark derives read ts)
    (hreads : Reads derives read) (hmark : endMark.kind = .eof) (hts : Unmarked ts)
    (hread : read ts = .error e) :
    ∃ before t after, ts ++ [endMark] = before ++ t :: after ∧
      FirstHopeless derives before t e.diagnostic := by
  rw [SourceOutcome, hread] at h
  obtain ⟨before, rest, rfl, hstuck⟩ := h
  have hrest : rest ++ [endMark] = rest.headD endMark :: (rest ++ [endMark]).tail := by
    cases rest <;> simp
  refine ⟨before, rest.headD endMark, (rest ++ [endMark]).tail, ?_, ?_⟩
  · rw [← hrest, List.append_assoc]
  have hhopeless : ¬ Viable derives (before ++ [rest.headD endMark]) := by
    cases rest with
    | nil => exact hreads.not_viable_mark hmark (by simpa using hread)
    | cons t more => exact hstuck.not_viable hreads rfl (.inl rfl) (hts t (by simp))
  rcases hstuck.blame with ⟨expected, rfl⟩ | ⟨rfl, hvar⟩
  · have hstatement :
        ¬ ((rest.headD endMark).kind = .varWord ∧ StatementExpected derives before) := by
      rintro ⟨hvar, word, hword, hviable⟩
      cases rest with
      | nil => simp [hmark] at hvar
      | cons t more =>
        refine hstuck.not_viable hreads rfl (.inr ⟨unexpected_fault_ne _ _, hvar, hword⟩) ?_ hviable
        simp [hword]
    exact .of_unexpected hstuck.viable.viable hhopeless hstatement
  · refine .of_lateDeclaration hvar hstuck.viable.viable hhopeless ?_
    exact ⟨⟨.printWord, "", 0, 0⟩, rfl, (hstuck.statement rfl _ rfl).viable⟩

theorem reads_script (hmark : endMark.kind = .eof) : Reads Program (script endMark) := by
  rintro _ s ⟨hf, hm, hstop⟩
  have hends : startsExpr endMark.kind = false := by simp [hmark, startsExpr]
  obtain ⟨vars, block, hm'⟩ := hm.of_next hends
  have hunmarked : Unmarked _ := unmarked_append.2 ⟨hf.unmarked, hm.unmarked⟩
  exact ⟨_, _, rfl, hstop, hunmarked, _, (script_eq_ok_iff hmark hunmarked).2 (.mk hf hm' hmark)⟩

theorem reads_wholeExpression (hmark : endMark.kind = .eof) :
    Reads Standalone (wholeExpression endMark) := by
  rintro _ e ⟨h, hstop⟩
  exact ⟨_, _, rfl, hstop, h.unmarked, e, (wholeExpression_eq_ok_iff hmark).2 (.mk h hmark)⟩

end Parser

theorem map_eq_error_iff {ε α β : Type} {f : α → β} {r : Except ε α} {e : ε} :
    r.map f = .error e ↔ r = .error e := by
  cases r <;> simp [Except.map]

/-- Where a source is rejected, as a program or as an expression, the diagnostic lies at the first
token that nothing accepted could have there, and its code tells what that token is. -/
theorem parse_error_firstHopeless (source : String) (e : SyntaxError) :
    (Script.parse source = .error e → ∃ before t after,
      Lexer.allTokens source = before ++ t :: after ∧
        Grammar.FirstHopeless Grammar.Program before t e.diagnostic) ∧
    (Expr.parse source = .error e → ∃ before t after,
      Lexer.allTokens source = before ++ t :: after ∧
        Grammar.FirstHopeless Grammar.Standalone before t e.diagnostic) := by
  have hmark : (Lexer.endMark source).kind = .eof := Lexer.endMark_kind source
  have hts : Grammar.Unmarked (Lexer.tokens source) := Lexer.scan_kind_ne_eof
  constructor
  · intro herror
    rw [Script.parse, map_eq_error_iff] at herror
    exact (Parser.script_outcome hmark hts).firstHopeless (Parser.reads_script hmark) hmark hts
      herror
  · intro herror
    rw [Expr.parse, map_eq_error_iff] at herror
    exact (Parser.wholeExpression_outcome hmark _).firstHopeless
      (Parser.reads_wholeExpression hmark) hmark hts herror

/-- A declaration after a statement of a program, and a name after an expression. -/
theorem parse_error_firstHopeless_late :
    (∃ before t after, Lexer.allTokens "print 1 var" = before ++ t :: after ∧
      Grammar.FirstHopeless Grammar.Program before t
        (⟨⟨.varWord, "var", 1, 9⟩, .lateDeclaration⟩ : SyntaxError).diagnostic) ∧
    ∃ before t after, Lexer.allTokens "1 x" = before ++ t :: after ∧
      Grammar.FirstHopeless Grammar.Standalone before t
        (⟨⟨.ident, "x", 1, 3⟩, .unexpectedToken "x" .endOfExpression⟩ : SyntaxError).diagnostic :=
  ⟨(parse_error_firstHopeless "print 1 var" _).1 (by cbv),
    (parse_error_firstHopeless "1 x" _).2 (by cbv)⟩

end ScriptAnalysis
