import ScriptAnalysis.Proofs.Outcome

/-!
# What reading an expression comes to

The functions that read expressions call each other, so what they come to is shown for all of them
at once, by the recursion of the functions themselves.
-/

namespace ScriptAnalysis

namespace Parser

open Grammar

variable {endMark : Token}

/-- What is not negated is read as a primary expression. -/
theorem Outcome.unary {ts : List Token} {bound : Nat} {r : Result (Expr Extent) bound}
    (h : Outcome endMark (fun used rest e ↦ Primary used e ∧ Ends 0 used rest)
      (fun us ↦ ∃ e, Primary us e) (fun us ↦ Refuses (primary endMark us)) ts r)
    (hts : ∀ t ∈ ts.head?, t.kind ∉ [Kind.minus, .bang]) :
    Outcome endMark (fun used rest e ↦ Unary used e ∧ Ends 0 used rest)
      (fun us ↦ ∃ e, Unary us e) (fun us ↦ Refuses (unary endMark us)) ts r := by
  refine h.last (show ts = [] ++ ts from rfl) ?_ ?_ ?_
  · rintro us rest e - ⟨hp, hends⟩
    exact ⟨.primary hp, hends⟩
  · rintro us ⟨e, hp⟩
    exact .done ⟨e, .primary hp⟩
  · rintro e us ⟨t, t', more, more', rfl, rfl, halike⟩ hus
    have ht' : t'.kind ∉ [Kind.minus, .bang] := halike.kind_notMem (hts t (by simp)) (by decide)
    rw [List.nil_append, Parser.unary, if_neg (by simpa using ht')]
    exact hus

/-- What does not close the parentheses of a call is read as a list of arguments. -/
theorem Outcome.arguments {ts : List Token} {bound : Nat} {r : Result (List (Expr Extent)) bound}
    (h : Outcome endMark (fun used _ args ↦ ArgumentList used args)
      (fun us ↦ ∃ args, ArgumentList us args) (fun us ↦ Refuses (argumentList endMark us)) ts r)
    (hts : ∀ t ∈ ts.head?, t.kind ∉ [Kind.rightParen]) :
    Outcome endMark (fun used _ args ↦ Arguments used args) (fun us ↦ ∃ args, Arguments us args)
      (fun us ↦ Refuses (arguments endMark us)) ts r := by
  refine h.last (show ts = [] ++ ts from rfl) ?_ ?_ ?_
  · intro us rest args _ hs
    exact .some hs
  · rintro us ⟨args, hs⟩
    exact .done ⟨args, .some hs⟩
  · rintro e us ⟨t, t', more, more', rfl, rfl, halike⟩ hus
    have ht' : t'.kind ∉ [Kind.rightParen] := halike.kind_notMem (hts t (by simp)) (by decide)
    rw [List.nil_append, Parser.arguments, if_neg (by simpa using ht')]
    exact hus

theorem Operator.level_pos (op : Operator) : 0 < op.level := by
  cases op <;> decide

/-- A token that is no name is a whole operand whatever follows it. -/
theorem ends_singleton {t : Token} {rest : List Token} (ht : t.kind ≠ .ident) : Ends 0 [t] rest :=
  ⟨fun _ _ op _ ↦ Operator.level_pos op, by simp [ht]⟩

theorem ends_of_closes {used rest : List Token}
    (h : ∃ before r, used = before ++ [r] ∧ r.kind = .rightParen) : Ends 0 used rest := by
  obtain ⟨before, r, rfl, hr⟩ := h
  exact (Ends.suffix_iff ⟨before, rfl⟩ (by simp)).1 (ends_singleton (by simp [hr]))

theorem refuses_primary {t : Token} {more : List Token}
    (h : t.kind ∉ [Kind.int, .string, .trueWord, .falseWord, .ident, .leftParen]) :
    Refuses (primary endMark (t :: more)) := by
  rw [primary]
  split
  case h_7 => exact ⟨_, rfl⟩
  all_goals simp_all

mutual

theorem binary_outcome (level : Nat) (ts : List Token) :
    Outcome endMark (fun used rest e ↦ Expression level used e ∧ Ends level used rest)
      (fun us ↦ ∃ e, Expression level us e) (fun us ↦ Refuses (binary endMark level us)) ts
      (binary endMark level ts) := by
  match level with
  | 0 =>
    rw [binary]
    refine (unary_outcome ts).last (show ts = [] ++ ts from rfl) ?_ ?_ ?_
    · rintro us rest e - ⟨h, hends⟩
      exact ⟨.unary h, hends⟩
    · rintro us ⟨e, h⟩
      exact .done ⟨e, .unary h⟩
    · intro e us _ hus
      rw [List.nil_append, binary]
      exact hus
  | level + 1 =>
    rw [binary]
    refine (binary_outcome level ts).bind (show ts = [] ++ ts from rfl) ?_ ?_ ?_
    · rintro used rest left h hts ⟨hl, hends⟩
      refine (chain_outcome level hts hl.operand hends h).last hts ?_ ?_ ?_
      · exact fun us rest' e _ hreads ↦ hreads
      · exact fun us hus ↦ .done hus
      · intro e us halike hus
        rw [binary]
        exact (hl.read (halike.ends hends) rfl).refuses fun _ ↦ hus _ _ _
    · rintro us ⟨e, h⟩
      exact .done ⟨e, h.operand⟩
    · intro e us _ hus
      rw [List.nil_append, binary]
      exact hus.bind _
termination_by 16 * ts.length + level + 3

theorem chain_outcome (level : Nat) {start ls ts : List Token} {left : Expr Extent}
    (hstart : start = ls ++ ts) (hl : Expression (level + 1) ls left) (hends : Ends level ls ts)
    (h : ts.length < start.length) :
    Outcome endMark
      (fun used rest e ↦ Expression (level + 1) (ls ++ used) e ∧ Ends (level + 1) (ls ++ used) rest)
      (fun us ↦ ∃ e, Expression (level + 1) (ls ++ us) e)
      (fun us ↦ ∀ start left h, Refuses (chain endMark level start left us h)) ts
      (chain endMark level start left ts h) := by
  match ts with
  | [] =>
    rw [chain]
    exact ⟨[], rfl, by simpa using hl, by simp, by simp⟩
  | t :: more =>
    rw [chain]
    cases hop : Operator.ofKind? t.kind with
    | none => exact ⟨[], rfl, by simpa using hl, by simp [hop], by simpa using hends.name⟩
    | some op =>
      have hlow : level < op.level := hends.operator t (by simp) op hop
      by_cases hlevel : op.level = level + 1
      · simp only [if_pos hlevel]
        refine (binary_outcome level more).bind (show t :: more = [t] ++ more from rfl) ?_ ?_ ?_
        · rintro us rest right h' rfl ⟨hr, hrends⟩
          have hall : start = (ls ++ t :: us) ++ rest := by simpa using hstart
          have hnote := Extent.between_eq_spanning endMark hall (by simp)
          have hjoined : Expression (level + 1) (ls ++ t :: us)
              (.binary (Extent.between endMark start rest) op left right) :=
            hnote ▸ .operation hl hop hlevel hr
          have hjends : Ends level (ls ++ t :: us) rest :=
            (Ends.suffix_iff ⟨ls ++ [t], by simp⟩ hr.ne_nil).1 hrends
          refine (chain_outcome level hall hjoined hjends _).last
            (show t :: (us ++ rest) = (t :: us) ++ rest from rfl) ?_ ?_ ?_
          · intro vs rest' e _ hreads
            simpa using hreads
          · rintro vs ⟨e, hvs⟩
            exact .done ⟨e, by simpa using hvs⟩
          · intro e vs halike hvs start' left' h''
            change Refuses (chain endMark level start' left' (t :: (us ++ vs)) h'')
            rw [chain]
            simp only [hop, if_pos hlevel]
            exact (hr.read (halike.ends hrends) rfl).refuses fun _ ↦ hvs _ _ _
        · rintro us ⟨right, hr⟩
          exact .done ⟨_, .operation hl hop hlevel hr⟩
        · intro e us _ hus start' left' h'
          change Refuses (chain endMark level start' left' (t :: us) h')
          rw [chain]
          simp only [hop, if_pos hlevel]
          exact hus.bind _
      · simp only [if_neg hlevel]
        refine ⟨[], rfl, by simpa using hl, ?_, by simpa using hends.name⟩
        rintro _ ⟨⟩ op' hop'
        rw [hop] at hop'
        cases hop'
        omega
termination_by 16 * ts.length + level

theorem unary_outcome (ts : List Token) :
    Outcome endMark (fun used rest e ↦ Unary used e ∧ Ends 0 used rest)
      (fun us ↦ ∃ e, Unary us e) (fun us ↦ Refuses (unary endMark us)) ts (unary endMark ts) := by
  match ts with
  | [] =>
    rw [unary]
    exact (primary_outcome []).unary (by simp)
  | t :: more =>
    rw [unary]
    by_cases ht : t.kind = .minus ∨ t.kind = .bang
    · rw [if_pos ht]
      refine (unary_outcome more).bind (show t :: more = [t] ++ more from rfl) ?_ ?_ ?_
      · rintro us rest e h rfl ⟨hu, hends⟩
        refine ⟨t :: us, rfl, ?_, (Ends.suffix_iff ⟨[t], rfl⟩ hu.ne_nil).1 hends⟩
        exact Extent.between_eq_spanning endMark (show t :: (us ++ rest) = t :: us ++ rest from rfl)
          (by simp) ▸ .negate ht hu
      · rintro us ⟨e, h⟩
        exact .done ⟨_, .negate ht h⟩
      · intro e us _ hus
        rw [List.singleton_append, unary, if_pos ht]
        exact hus.bind _
    · rw [if_neg ht]
      exact (primary_outcome (t :: more)).unary (by simpa using ht)
termination_by 16 * ts.length + 2

theorem primary_outcome (ts : List Token) :
    Outcome endMark (fun used rest e ↦ Primary used e ∧ Ends 0 used rest)
      (fun us ↦ ∃ e, Primary us e) (fun us ↦ Refuses (primary endMark us)) ts
      (primary endMark ts) := by
  have hclose : Completable (fun us ↦ ∃ e, Primary us e) [] :=
    .more .int (by decide) fun t ht ↦ .done ⟨_, .int ht⟩
  match ts with
  | [] =>
    rw [primary]
    exact Stuck.here hclose (by simp)
  | t :: more =>
    have hnote :=
      Extent.between_eq_spanning endMark (show t :: more = [t] ++ more from rfl) (by simp)
    rw [primary, hnote]
    split
    · next ht => exact ⟨[t], rfl, .int ht, ends_singleton (by simp [ht])⟩
    · next ht => exact ⟨[t], rfl, .string ht, ends_singleton (by simp [ht])⟩
    · next ht => exact ⟨[t], rfl, .true ht, ends_singleton (by simp [ht])⟩
    · next ht => exact ⟨[t], rfl, .false ht, ends_singleton (by simp [ht])⟩
    · next ht =>
      split
      · next hcall =>
        obtain ⟨l, more, rfl, hl⟩ : ∃ l more', more = l :: more' ∧ l.kind = .leftParen := by
          cases more <;> simp_all [startsCall]
        refine (call_outcome ht hl).bind (show t :: l :: more = [] ++ _ from rfl) ?_ ?_ ?_
        · rintro us rest ⟨note, callee, args⟩ h hus hc
          exact ⟨us, hus, .call hc, ends_of_closes hc.closes⟩
        · rintro us ⟨note, callee, args, hc⟩
          exact .done ⟨_, .call hc⟩
        · rintro e us ⟨_, t', _, more', ⟨⟩, rfl, halike⟩ ⟨hcall', hus⟩
          have ht' : t'.kind = .ident := by
            simp only [startsCall, Bool.and_eq_true, decide_eq_true_eq] at hcall'
            exact hcall'.1
          rw [List.nil_append, primary]
          simp only [ht', hcall', if_true]
          exact hus.bind _
      · next hcall =>
        refine ⟨[t], rfl, .ident ht, fun _ _ op _ ↦ Operator.level_pos op, ?_⟩
        simpa [startsCall, ht] using hcall
    · next ht =>
      refine (binary_outcome 3 more).bind (show t :: more = [t] ++ more from rfl) ?_ ?_ ?_
      · rintro us rest e h rfl ⟨he, hends⟩
        refine (expect_outcome (by decide) rest).bind
          (show t :: (us ++ rest) = (t :: us) ++ rest from rfl) ?_ ?_ ?_
        · rintro _ rest' r h' rfl ⟨rfl, hr⟩
          refine ⟨t :: (us ++ [r]), by simp, ?_, ?_⟩
          · exact Extent.between_eq_spanning endMark
              (show t :: (us ++ ([r] ++ rest')) = t :: (us ++ [r]) ++ rest' by simp) (by simp) ▸
                .parens ht he hr
          · exact ends_of_closes ⟨t :: us, r, rfl, hr⟩
        · rintro _ ⟨r, rfl, hr⟩
          exact .done ⟨_, .parens ht he hr⟩
        · intro e' vs halike hvs
          rw [List.cons_append, primary]
          simp only [ht]
          exact (he.read (halike.ends hends) rfl).refuses fun _ ↦ hvs.bind _
      · rintro us ⟨e, he⟩
        exact .more .rightParen (by decide) fun r hr ↦ .done ⟨_, .parens ht he hr⟩
      · intro e us _ hus
        rw [List.singleton_append, primary]
        simp only [ht]
        exact hus.bind _
    · next h₁ h₂ h₃ h₄ h₅ h₆ =>
      refine Stuck.here hclose ?_
      rintro _ t' _ more' ⟨⟩ halike
      exact refuses_primary (halike.kind_notMem (by simp_all) (by decide))
termination_by 16 * ts.length + 1

theorem call_outcome {name l : Token} {more : List Token} (hn : name.kind = .ident)
    (hl : l.kind = .leftParen) :
    Outcome endMark (fun used _ c ↦ Call used c.1 c.2.1 c.2.2)
      (fun us ↦ ∃ note callee args, Call us note callee args)
      (fun us ↦ startsCall us = true ∧ Refuses (call endMark us)) (name :: l :: more)
      (call endMark (name :: l :: more)) := by
  rw [call]
  refine .of_yields (yields_expect hn) fun _ ↦ ?_
  refine .of_yields (yields_expect hl) fun _ ↦ ?_
  refine (arguments_outcome more).bind (show name :: l :: more = [name, l] ++ more from rfl)
    ?_ ?_ ?_
  · rintro us rest args h rfl ha
    refine ⟨name :: l :: us, rfl, ?_⟩
    exact Extent.between_eq_spanning endMark
      (show name :: l :: (us ++ rest) = name :: l :: us ++ rest from rfl) (by simp) ▸ .mk hn hl ha
  · rintro us ⟨args, ha⟩
    exact .done ⟨_, _, _, .mk hn hl ha⟩
  · intro e us _ hus
    refine ⟨by simp [startsCall, hn, hl], ?_⟩
    change Refuses (call endMark (name :: l :: us))
    rw [call]
    refine (yields_expect hn).refuses fun _ ↦ ?_
    exact (yields_expect hl).refuses fun _ ↦ hus.bind _
termination_by 16 * more.length + 16

theorem arguments_outcome (ts : List Token) :
    Outcome endMark (fun used _ args ↦ Arguments used args) (fun us ↦ ∃ args, Arguments us args)
      (fun us ↦ Refuses (arguments endMark us)) ts (arguments endMark ts) := by
  match ts with
  | [] =>
    rw [arguments]
    exact (argumentList_outcome []).arguments (by simp)
  | t :: more =>
    rw [arguments]
    by_cases ht : t.kind = .rightParen
    · rw [if_pos ht]
      exact ⟨[t], rfl, .none ht⟩
    · rw [if_neg ht]
      exact (argumentList_outcome (t :: more)).arguments (by simpa using ht)
termination_by 16 * ts.length + 8

theorem argumentList_outcome (ts : List Token) :
    Outcome endMark (fun used _ args ↦ ArgumentList used args)
      (fun us ↦ ∃ args, ArgumentList us args)
      (fun us ↦ Refuses (argumentList endMark us)) ts (argumentList endMark ts) := by
  rw [argumentList]
  refine (binary_outcome 3 ts).bind (show ts = [] ++ ts from rfl) ?_ ?_ ?_
  · rintro us rest e h rfl ⟨he, hends⟩
    by_cases hcomma : startsWith .comma rest
    · obtain ⟨comma, rest, rfl, hc⟩ : ∃ t more, rest = t :: more ∧ t.kind = .comma := by
        cases rest <;> simp_all
      simp only [hcomma, if_true, List.tail_cons]
      refine (argumentList_outcome rest).bind
        (show us ++ comma :: rest = (us ++ [comma]) ++ rest by simp) ?_ ?_ ?_
      · rintro vs rest' args h' rfl hs
        exact ⟨us ++ comma :: vs, by simp, .more he hc hs⟩
      · rintro vs ⟨args, hs⟩
        exact .done ⟨_, by simpa using ArgumentList.more he hc hs⟩
      · intro e' vs _ hvs
        have hread : Yields (binary endMark 3 (us ++ [comma] ++ vs)) e (comma :: vs) :=
          he.read (.of_kind 3 hc (by decide)) (by simp)
        rw [argumentList]
        refine hread.refuses fun _ ↦ ?_
        simp only [startsWith_cons, hc, decide_true, if_true, List.tail_cons]
        exact hvs.bind _
    · simp only [hcomma]
      refine (expect_outcome (by decide) rest).bind rfl ?_ ?_ ?_
      · rintro _ rest' r h' rfl ⟨rfl, hr⟩
        exact ⟨us ++ [r], by simp, .last he hr⟩
      · rintro _ ⟨r, rfl, hr⟩
        exact .done ⟨_, .last he hr⟩
      · intro e' vs halike hvs
        rw [argumentList]
        refine (he.read (halike.ends hends) rfl).refuses fun _ ↦ ?_
        simp only [halike.startsWith (by simpa using hcomma) (by decide)]
        exact hvs.bind _
  · rintro us ⟨e, he⟩
    exact .more .rightParen (by decide) fun r hr ↦ .done ⟨_, .last he hr⟩
  · intro e us _ hus
    rw [List.nil_append, argumentList]
    exact hus.bind _
termination_by 16 * ts.length + 7

end

end Parser

end ScriptAnalysis
