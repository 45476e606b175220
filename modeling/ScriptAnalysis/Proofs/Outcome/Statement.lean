import ScriptAnalysis.Proofs.Outcome.Expression

/-!
# What reading statements comes to

Whether a `return` has a value depends on the token that comes next, so a statement can be completed
if some tokens behind it make it one whenever no expression follows. At the beginning of a statement
a declaration is an error of its own.
-/

namespace ScriptAnalysis

namespace Grammar

open ScriptAnalysis.Parser

/-- A statement stays one before a token that begins no expression. -/
theorem Statement.of_next {ts : List Token} {next next' : Token} {s : Stmt Extent}
    (h : Statement ts next s) (hnext : startsExpr next'.kind = false) : Statement ts next' s := by
  cases h with
  | assign hn heq h => exact .assign hn heq h
  | call h => exact .call h
  | loop hw h hb => exact .loop hw h hb
  | branch hw h ht => exact .branch hw h ht
  | branchElse hw h ht ho hf => exact .branchElse hw h ht ho hf
  | print hw h => exact .print hw h
  | ret hw hn => exact .ret hw (by simp [TakesValue, hnext])
  | retValue hw hv h => exact .retValue hw hv h

theorem Statement.single {ts : List Token} {next : Token} {s : Stmt Extent}
    (h : Statement ts next s) : Statements ts next [s] := by
  have hs : Statements (ts ++ []) next [s] := .cons h .nil
  rwa [List.append_nil] at hs

theorem Statements.of_next {ts : List Token} {next next' : Token} {ss : List (Stmt Extent)} :
    Statements ts next ss → startsExpr next'.kind = false → Statements ts next' ss
  | .nil, _ => .nil
  | @Statements.cons _ ts us s ss h hs, hnext => by
    refine .cons ?_ (hs.of_next hnext)
    cases us with
    | nil => exact h.of_next hnext
    | cons t more => exact h

theorem completable_expression : Completable (fun us ↦ ∃ e, Expression 3 us e) [] :=
  .more .int (by decide) fun _ ht ↦
    .done ⟨_, .operand (.operand (.operand (.unary (.primary (.int ht)))))⟩

theorem completable_braceBlock : Completable (fun us ↦ ∃ b, BraceBlock us b) [] :=
  .more .leftBrace (by decide) fun _ hl ↦
    .more .rightBrace (by decide) fun _ hr ↦ .done ⟨_, .mk hl .nil hr⟩

end Grammar

namespace Parser

open Grammar

variable {endMark : Token} {e : SyntaxError} {rest us : List Token}

theorem BeginAlike.statementEnds {s : Stmt Extent} {used : List Token} (h : BeginAlike e rest us)
    (hends : StatementEnds s used rest) : StatementEnds s used us := by
  unfold StatementEnds at hends ⊢
  split
  · exact h.ends hends
  · exact h.ends hends
  · exact h.ends hends
  · exact h.startsWith hends (by decide)
  · trivial

theorem BeginAlike.statement {s : Stmt Extent} {used : List Token} (h : BeginAlike e rest us)
    (hs : Statement used (rest.headD endMark) s) : Statement used (us.headD endMark) s := by
  obtain ⟨t, t', more, more', rfl, rfl, rfl | ⟨-, -, hprint⟩⟩ := h
  · exact hs
  · exact hs.of_next (by simp [hprint, startsExpr])

/-- Lists that begin alike begin with the same token unless it is that of a declaration. -/
theorem BeginAlike.head?_eq (h : BeginAlike e rest us)
    (hvar : Parser.startsWith .varWord rest = false) :
    us.head? = rest.head? := by
  obtain ⟨t, t', more, more', rfl, rfl, rfl | ⟨-, hkind, -⟩⟩ := h
  · rfl
  · simp [hkind] at hvar

theorem BeginAlike.not_refuses_expect {kind : Kind} (h : BeginAlike e rest us)
    (hrest : ∀ t ∈ rest.head?, t.kind = kind) (hkind : kind ≠ .varWord) :
    ¬ Refuses (expect endMark kind us) := by
  obtain ⟨t, t', more, more', rfl, rfl, rfl | ⟨-, hvar, -⟩⟩ := h
  · rintro ⟨e', he'⟩
    rw [expect, if_pos (hrest t' (by simp))] at he'
    cases he'
  · exact absurd ((hrest t (by simp)).symm.trans hvar) hkind

theorem statement_eq_fail {t : Token} {more : List Token} (h : startsStatement t.kind = false) :
    statement endMark (t :: more) = fail endMark .statement (t :: more) := by
  rw [statement]
  split
  case h_6 => rfl
  all_goals simp_all [startsStatement]

/-- Statements can be completed whatever follows them, so long as no expression does. -/
def Completes {α : Type} (R : List Token → Token → α → Prop) (us : List Token) : Prop :=
  ∀ next : Token, startsExpr next.kind = false → ∃ value, R us next value

theorem not_takesValue {word : Token} {ts : List Token} (hmark : endMark.kind = .eof)
    (h : ¬ startsValue word ts = true) : ¬ TakesValue word (ts.headD endMark) := by
  cases ts with
  | nil => simp [TakesValue, hmark, startsExpr]
  | cons t more => simpa [startsValue, TakesValue] using h

/-- What reading a statement comes to. -/
def StatementOutcome (endMark : Token) (ts : List Token) : Prop :=
  Outcome endMark
    (fun used rest s ↦ Statement used (rest.headD endMark) s ∧ StatementEnds s used rest)
    (Completes Statement) (fun us ↦ Refuses (statement endMark us)) ts (statement endMark ts)

theorem statement_outcome_of_ident {t : Token} {more : List Token}
    (ht : t.kind = .ident) : StatementOutcome endMark (t :: more) := by
  rw [StatementOutcome, statement]
  simp only [ht]
  split
  · next hcall =>
    obtain ⟨l, more, rfl, hl⟩ : ∃ l more', more = l :: more' ∧ l.kind = .leftParen := by
      cases more <;> simp_all [startsCall]
    refine (call_outcome ht hl).bind (show t :: l :: more = [] ++ _ from rfl) ?_ ?_ ?_
    · rintro us rest ⟨note, callee, args⟩ h hus hc
      have hnote : Extent.between endMark (t :: l :: more) rest = note := by
        obtain ⟨-, -, -⟩ := hc
        exact Extent.between_eq_spanning endMark hus (by simp)
      refine ⟨us, hus, ?_, trivial⟩
      change Statement us _ (.call (Extent.between endMark (t :: l :: more) rest) note callee args)
      rw [hnote]
      exact .call hc
    · rintro us ⟨note, callee, args, hc⟩
      exact .done fun _ _ ↦ ⟨_, .call hc⟩
    · rintro e us ⟨_, t', _, more', ⟨⟩, rfl, halike⟩ ⟨hcall', hus⟩
      have ht' : t'.kind = .ident := by
        simp only [startsCall, Bool.and_eq_true, decide_eq_true_eq] at hcall'
        exact hcall'.1
      rw [List.nil_append, statement]
      simp only [ht', hcall', if_true]
      exact hus.bind _
  · next hcall =>
    have hparen : startsWith .leftParen more = false := by simpa [startsCall, ht] using hcall
    refine (expect_outcome (by decide) more).bind (show t :: more = [t] ++ more from rfl) ?_ ?_ ?_
    · rintro _ rest eq h rfl ⟨rfl, heq⟩
      refine (binary_outcome 3 rest).bind (show t :: ([eq] ++ rest) = [t, eq] ++ rest from rfl)
        ?_ ?_ ?_
      · rintro us rest' e h' rfl ⟨he, hends⟩
        have hall : t :: ([eq] ++ (us ++ rest')) = t :: eq :: us ++ rest' := rfl
        refine ⟨t :: eq :: us, hall, ?_, (Ends.suffix_iff ⟨[t, eq], rfl⟩ he.ne_nil).1 hends⟩
        exact Extent.between_eq_spanning endMark hall (by simp) ▸ .assign ht heq he
      · rintro us ⟨e, he⟩
        exact .done fun _ _ ↦ ⟨_, .assign ht heq he⟩
      · intro e us _ hus
        change Refuses (statement endMark (t :: eq :: us))
        rw [statement]
        simp only [ht, startsCall, startsWith_cons, heq, reduceCtorEq, decide_false, Bool.and_false]
        exact (yields_expect heq).refuses fun _ ↦ hus.bind _
    · rintro _ ⟨eq, rfl, heq⟩
      exact completable_expression.append fun us ⟨e, he⟩ ↦ .done fun _ _ ↦ ⟨_, .assign ht heq he⟩
    · intro e us halike hus
      rw [List.singleton_append, statement]
      simp only [ht, startsCall, halike.startsWith hparen (by decide), Bool.and_false]
      exact hus.bind _

theorem statement_outcome_of_print {t : Token} {more : List Token}
    (ht : t.kind = .printWord) : StatementOutcome endMark (t :: more) := by
  rw [StatementOutcome, statement]
  simp only [ht]
  refine (binary_outcome 3 more).bind (show t :: more = [t] ++ more from rfl) ?_ ?_ ?_
  · rintro us rest e h rfl ⟨he, hends⟩
    have hall : t :: (us ++ rest) = t :: us ++ rest := rfl
    refine ⟨t :: us, hall, ?_, (Ends.suffix_iff ⟨[t], rfl⟩ he.ne_nil).1 hends⟩
    exact Extent.between_eq_spanning endMark hall (by simp) ▸ .print ht he
  · rintro us ⟨e, he⟩
    exact .done fun _ _ ↦ ⟨_, .print ht he⟩
  · intro e us _ hus
    rw [List.singleton_append, statement]
    simp only [ht]
    exact hus.bind _

theorem statement_outcome_of_return (hmark : endMark.kind = .eof) {t : Token} {more : List Token}
    (ht : t.kind = .returnWord) : StatementOutcome endMark (t :: more) := by
  rw [StatementOutcome, statement]
  simp only [ht]
  by_cases hvalue : startsValue t more
  · obtain ⟨first, more, rfl, htakes⟩ : ∃ u us, more = u :: us ∧ TakesValue t u := by
      cases more <;> simp_all [startsValue, TakesValue]
    simp only [hvalue, if_true]
    -- A `return` is complete before its value, so the value has to be seen to begin on its line.
    refine (binary_outcome 3 (first :: more)).follow
      (show t :: first :: more = [t] ++ first :: more from rfl) ?_ ?_ ?_ ?_
    · rintro us rest e h hus ⟨he, hends⟩
      obtain ⟨first', us, rfl, -⟩ := he.starts
      obtain ⟨rfl, rfl⟩ : first = first' ∧ more = us ++ rest := by simpa using hus
      have hall : t :: first :: (us ++ rest) = t :: first :: us ++ rest := rfl
      refine ⟨t :: first :: us, hall, ?_, (Ends.suffix_iff ⟨[t], rfl⟩ he.ne_nil).1 hends⟩
      exact Extent.between_eq_spanning endMark hall (by simp) ▸ .retValue ht htakes he
    · exact .done fun next hnext ↦ ⟨_, .ret ht (by simp [TakesValue, hnext])⟩
    · rintro first' us (hfirst | hprint) ⟨e, he⟩
      · obtain rfl : first = first' := by simpa using hfirst
        exact .done fun _ _ ↦ ⟨_, .retValue ht htakes he⟩
      · obtain ⟨_, _, ⟨⟩, hstart⟩ := he.starts
        simp [hprint, startsExpr] at hstart
    · rintro e us halike hus
      have hvalue' : startsValue t us = true := by
        have hfirst : startsWith .varWord (first :: more) = false := by
          apply startsWith_eq_false
          rintro _ ⟨⟩ hkind
          simp [TakesValue, hkind, startsExpr] at htakes
        rw [startsValue, halike.head?_eq hfirst]
        exact hvalue
      rw [List.singleton_append, statement]
      simp only [ht, hvalue', if_true]
      exact hus.bind _
  · have hall : t :: more = [t] ++ more := rfl
    simp only [hvalue]
    refine ⟨[t], hall, ?_, trivial⟩
    exact Extent.between_eq_spanning endMark hall (by simp) ▸ .ret ht (not_takesValue hmark hvalue)

mutual

theorem statement_outcome_of_while (hmark : endMark.kind = .eof) {t : Token} {more : List Token}
    (ht : t.kind = .whileWord) : StatementOutcome endMark (t :: more) := by
  rw [StatementOutcome, statement]
  simp only [ht]
  refine (binary_outcome 3 more).bind (show t :: more = [t] ++ more from rfl) ?_ ?_ ?_
  · rintro us rest e h rfl ⟨he, hends⟩
    refine (braceBlock_outcome hmark rest).bind
      (show t :: (us ++ rest) = (t :: us) ++ rest from rfl) ?_ ?_ ?_
    · rintro vs rest' b h' rfl hb
      have hall : t :: (us ++ (vs ++ rest')) = t :: (us ++ vs) ++ rest' := by simp
      refine ⟨t :: (us ++ vs), hall, ?_, trivial⟩
      exact Extent.between_eq_spanning endMark hall (by simp) ▸ .loop ht he hb
    · rintro vs ⟨b, hb⟩
      exact .done fun _ _ ↦ ⟨_, .loop ht he hb⟩
    · intro e' vs halike hvs
      rw [List.cons_append, statement]
      simp only [ht]
      exact (he.read (halike.ends hends) rfl).refuses fun _ ↦ hvs.bind _
  · rintro us ⟨e, he⟩
    exact completable_braceBlock.append fun vs ⟨b, hb⟩ ↦ .done fun _ _ ↦ ⟨_, .loop ht he hb⟩
  · intro e us _ hus
    rw [List.singleton_append, statement]
    simp only [ht]
    exact hus.bind _
termination_by 2 * more.length + 1

theorem statement_outcome_of_if (hmark : endMark.kind = .eof) {t : Token} {more : List Token}
    (ht : t.kind = .ifWord) : StatementOutcome endMark (t :: more) := by
  rw [StatementOutcome, statement]
  simp only [ht]
  refine (binary_outcome 3 more).bind (show t :: more = [t] ++ more from rfl) ?_ ?_ ?_
  · rintro us rest e h rfl ⟨he, hends⟩
    refine (braceBlock_outcome hmark rest).bind
      (show t :: (us ++ rest) = (t :: us) ++ rest from rfl) ?_ ?_ ?_
    · rintro vs rest' b h' rfl hb
      by_cases helse : startsWith .elseWord rest'
      · obtain ⟨other, rest', rfl, ho⟩ : ∃ t more, rest' = t :: more ∧ t.kind = .elseWord := by
          cases rest' <;> simp_all
        simp only [helse, if_true, List.tail_cons]
        refine (braceBlock_outcome hmark rest').bind
          (show _ = (t :: (us ++ vs ++ [other])) ++ rest' by simp) ?_ ?_ ?_
        · rintro ws rest'' b' h'' rfl hb'
          have hall : t :: (us ++ (vs ++ other :: (ws ++ rest''))) =
              t :: (us ++ vs ++ other :: ws) ++ rest'' := by simp
          refine ⟨t :: (us ++ vs ++ other :: ws), hall, ?_, trivial⟩
          exact Extent.between_eq_spanning endMark hall (by simp) ▸ .branchElse ht he hb ho hb'
        · rintro ws ⟨b', hb'⟩
          rw [show t :: (us ++ vs ++ [other]) ++ ws = t :: (us ++ vs ++ other :: ws) by simp]
          exact .done fun _ _ ↦ ⟨_, .branchElse ht he hb ho hb'⟩
        · intro e' ws _ hws
          have hcond : Yields (binary endMark 3 (us ++ vs ++ [other] ++ ws)) e
              (vs ++ other :: ws) := he.read hb.ends (by simp)
          rw [List.cons_append, statement]
          simp only [ht]
          refine hcond.refuses fun _ ↦ ?_
          refine (hb.read rfl).refuses fun _ ↦ ?_
          simp only [startsWith_cons, ho, decide_true, if_true, List.tail_cons]
          exact hws.bind _
      · have hall : t :: (us ++ (vs ++ rest')) = t :: (us ++ vs) ++ rest' := by simp
        simp only [helse]
        refine ⟨t :: (us ++ vs), hall, ?_, by simpa [StatementEnds] using helse⟩
        exact Extent.between_eq_spanning endMark hall (by simp) ▸ .branch ht he hb
    · rintro vs ⟨b, hb⟩
      exact .done fun _ _ ↦ ⟨_, .branch ht he hb⟩
    · intro e' vs halike hvs
      rw [List.cons_append, statement]
      simp only [ht]
      exact (he.read (halike.ends hends) rfl).refuses fun _ ↦ hvs.bind _
  · rintro us ⟨e, he⟩
    exact completable_braceBlock.append fun vs ⟨b, hb⟩ ↦ .done fun _ _ ↦ ⟨_, .branch ht he hb⟩
  · intro e us _ hus
    rw [List.singleton_append, statement]
    simp only [ht]
    exact hus.bind _
termination_by 2 * more.length + 1

/-- The list does not begin with a declaration: before statements are read, that is ruled out. -/
theorem statement_outcome (hmark : endMark.kind = .eof) (ts : List Token)
    (hvar : startsWith .varWord ts = false) : StatementOutcome endMark ts := by
  have hclose : Completable (Completes Statement) [] :=
    .more .ident (by decide) fun name hn ↦ .more .assign (by decide) fun eq heq ↦
      completable_expression.append fun us ⟨e, he⟩ ↦ .done fun _ _ ↦ ⟨_, .assign hn heq he⟩
  match ts with
  | [] =>
    rw [StatementOutcome, statement]
    exact Stuck.here hclose (by simp)
  | t :: more =>
    by_cases hstart : startsStatement t.kind
    · unfold startsStatement at hstart
      split at hstart
      · next ht => exact statement_outcome_of_ident ht
      · next ht => exact statement_outcome_of_while hmark ht
      · next ht => exact statement_outcome_of_if hmark ht
      · next ht => exact statement_outcome_of_print ht
      · next ht => exact statement_outcome_of_return hmark ht
      · cases hstart
    · rw [Bool.not_eq_true] at hstart
      rw [StatementOutcome, statement_eq_fail hstart]
      refine Stuck.here hclose ?_
      rintro _ t' _ more' ⟨⟩ (rfl | ⟨-, hkind, -⟩)
      · rw [statement_eq_fail hstart]
        exact ⟨_, rfl⟩
      · simp [hkind] at hvar
termination_by 2 * ts.length

theorem statements_outcome (hmark : endMark.kind = .eof) {stop : Kind}
    (hstop : stop = .rightBrace ∨ stop = .eof) (ts : List Token) :
    Outcome endMark
      (fun used rest ss ↦ Statements used (rest.headD endMark) ss ∧ ∀ t ∈ rest.head?, t.kind = stop)
      (Completes Statements) (fun us ↦ Refuses (statements endMark stop us)) ts
      (statements endMark stop ts) := by
  match ts with
  | [] =>
    rw [statements]
    exact ⟨[], rfl, .nil, by simp⟩
  | t :: more =>
    rw [statements]
    by_cases hstopped : t.kind = stop
    · rw [if_pos hstopped]
      exact ⟨[], rfl, .nil, by simpa using hstopped⟩
    rw [if_neg hstopped]
    by_cases hvar : t.kind = .varWord
    · rw [if_pos hvar]
      refine ⟨[], t :: more, rfl, .inr ⟨rfl, hvar⟩, .done fun _ _ ↦ ⟨_, .nil⟩, ?_, ?_⟩
      · intro _ word hw
        exact completable_expression.append fun us ⟨e, he⟩ ↦
          .done fun _ _ ↦ ⟨_, (Statement.print hw he).single⟩
      · rintro _ t' more' ⟨⟩ (rfl | ⟨hlate, -⟩)
        · rw [List.nil_append, statements, if_neg hstopped, if_pos hvar]
          exact ⟨_, rfl⟩
        · exact absurd rfl hlate
    rw [if_neg hvar]
    refine (statement_outcome hmark (t :: more) (by simpa using hvar)).bind
      (show t :: more = [] ++ t :: more from rfl) ?_ ?_ ?_
    · rintro us rest s h hus ⟨hs, hends⟩
      -- The statement is complete, and what follows it is seen to leave it as it is.
      refine (statements_outcome hmark hstop rest).follow hus ?_ ?_ ?_ ?_
      · rintro vs rest' ss h' rfl ⟨hss, hrest⟩
        refine ⟨us ++ vs, by simp [hus], .cons ?_ hss, hrest⟩
        cases vs <;> exact hs
      · exact .done fun next hnext ↦ ⟨_, (hs.of_next hnext).single⟩
      · rintro first vs hfirst hss
        refine .done fun next hnext ↦ ?_
        obtain ⟨ss, hss⟩ := hss next hnext
        refine ⟨s :: ss, .cons ?_ hss⟩
        rcases hfirst with hfirst | hprint
        · rwa [List.headD_eq_head?_getD, hfirst] at hs
        · exact hs.of_next (by simp [hprint, startsExpr])
      · intro e vs halike hvs
        have hread : Yields (statement endMark (us ++ vs)) s vs :=
          (halike.statement hs).read rfl (halike.statementEnds hends) rfl
        obtain ⟨t', us, rfl, -⟩ := hs.starts
        obtain ⟨rfl, -⟩ : t = t' ∧ more = us ++ rest := by simpa using hus
        change Refuses (statements endMark stop (t :: (us ++ vs)))
        rw [statements, if_neg hstopped, if_neg hvar]
        exact hread.refuses fun _ ↦ hvs.bind _
    · intro us hcompletes
      refine .done fun next hnext ↦ ?_
      obtain ⟨s, hs⟩ := hcompletes next hnext
      exact ⟨_, hs.single⟩
    · rintro e us ⟨_, t', _, more', ⟨⟩, rfl, rfl | ⟨-, hkind, -⟩⟩ hus
      · rw [List.nil_append, statements, if_neg hstopped, if_neg hvar]
        exact hus.bind _
      · exact absurd hkind hvar
termination_by 2 * ts.length + 1
decreasing_by all_goals simp only [List.length_cons] at *; omega

theorem braceBlock_outcome (hmark : endMark.kind = .eof) (ts : List Token) :
    Outcome endMark (fun used _ b ↦ BraceBlock used b) (fun us ↦ ∃ b, BraceBlock us b)
      (fun us ↦ Refuses (braceBlock endMark us)) ts (braceBlock endMark ts) := by
  rw [braceBlock]
  refine (expect_outcome (by decide) ts).bind (show ts = [] ++ ts from rfl) ?_ ?_ ?_
  · rintro _ rest l h rfl ⟨rfl, hl⟩
    refine (statements_outcome hmark (.inl rfl) rest).bind rfl ?_ ?_ ?_
    · rintro us rest' ss h' rfl ⟨hss, hrest⟩
      refine (expect_outcome (by decide) rest').bind
        (show [l] ++ (us ++ rest') = l :: us ++ rest' from rfl) ?_ ?_ ?_
      · rintro _ rest'' r h'' rfl ⟨rfl, hr⟩
        have hall : [l] ++ (us ++ ([r] ++ rest'')) = l :: (us ++ [r]) ++ rest'' := by simp
        refine ⟨l :: (us ++ [r]), hall, ?_⟩
        exact Extent.between_eq_spanning endMark hall (by simp) ▸ .mk hl hss hr
      · rintro _ ⟨r, rfl, hr⟩
        exact .done ⟨_, .mk hl (hss.of_next (by simp [hr, startsExpr])) hr⟩
      · intro e vs halike hvs
        exact absurd hvs (halike.not_refuses_expect hrest (by decide))
    · intro us hcompletes
      refine .more .rightBrace (by decide) fun r hr ↦ ?_
      obtain ⟨ss, hss⟩ := hcompletes r (by simp [hr, startsExpr])
      exact .done ⟨_, .mk hl hss hr⟩
    · intro e us _ hus
      rw [List.singleton_append, braceBlock]
      exact (yields_expect hl).refuses fun _ ↦ hus.bind _
  · rintro _ ⟨l, rfl, hl⟩
    exact .more .rightBrace (by decide) fun r hr ↦ .done ⟨_, .mk hl .nil hr⟩
  · intro e us _ hus
    rw [List.nil_append, braceBlock]
    exact hus.bind _
termination_by 2 * ts.length

end

end Parser

end ScriptAnalysis
