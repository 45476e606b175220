import ScriptAnalysis.Proofs.Outcome.Statement

/-!
# What reading a program comes to

From declarations, bodies and definitions up to a whole program, and a single expression by itself.
-/

namespace ScriptAnalysis

namespace Grammar

open ScriptAnalysis.Parser

theorem Parts.of_next {ts : List Token} {next next' : Token} {vars : VarBlock Extent}
    {block : Block Extent} (h : Parts ts next vars block) (hnext : startsExpr next'.kind = false) :
    ∃ vars' block', Parts ts next' vars' block' := by
  obtain ⟨hd, hs⟩ := h
  exact ⟨_, _, .mk hd (hs.of_next hnext)⟩

theorem completable_functionBody : Completable (fun us ↦ ∃ b, FunctionBody us b) [] :=
  .more .leftBrace (by decide) fun _ hl ↦
    .more .rightBrace (by decide) fun _ hr ↦ .done ⟨_, .mk hl (.mk .nil .nil) hr⟩

section

variable {word name l : Token} {ts us : List Token} {ps : List (Param Extent)} {returns : String}

theorem completable_function_of_returnType (hw : word.kind = .funcWord) (hn : name.kind = .ident)
    (hl : l.kind = .leftParen) (hp : Parameters ts ps) (hr : ReturnType us returns) :
    Completable (fun us ↦ ∃ f, Function us f) (word :: name :: l :: (ts ++ us)) :=
  completable_functionBody.append fun _ ⟨_, hb⟩ ↦ .done ⟨_, .mk hw hn hl hp hr hb⟩

theorem completable_function_of_parameters (hw : word.kind = .funcWord) (hn : name.kind = .ident)
    (hl : l.kind = .leftParen) (hp : Parameters ts ps) :
    Completable (fun us ↦ ∃ f, Function us f) (word :: name :: l :: ts) := by
  have h := completable_function_of_returnType hw hn hl hp .none
  rwa [List.append_nil] at h

theorem completable_function_of_paren (hw : word.kind = .funcWord) (hn : name.kind = .ident)
    (hl : l.kind = .leftParen) : Completable (fun us ↦ ∃ f, Function us f) [word, name, l] :=
  .more .rightParen (by decide) fun _ hr ↦ completable_function_of_parameters hw hn hl (.none hr)

end

end Grammar

namespace Parser

open Grammar

variable {endMark : Token}

theorem BeginAlike.declarationEnds {e : SyntaxError} {rest us used : List Token}
    {d : VarDecl Extent} (h : BeginAlike e rest us) (hends : DeclarationEnds d used rest) :
    DeclarationEnds d used us := by
  unfold DeclarationEnds at hends ⊢
  split
  · next hinit =>
    rw [hinit] at hends
    exact h.ends hends
  · next hinit =>
    rw [hinit] at hends
    exact h.startsWith hends (by decide)

theorem varDecl_outcome {word : Token} {more : List Token} (hw : word.kind = .varWord) :
    Outcome endMark (fun used rest d ↦ Declaration used d ∧ DeclarationEnds d used rest)
      (fun us ↦ ∃ d, Declaration us d)
      (fun us ↦ startsWith .varWord us = true ∧ Refuses (varDecl endMark us)) (word :: more)
      (varDecl endMark (word :: more)) := by
  have hstart : ∀ us, startsWith .varWord (word :: us) = true := by simp [hw]
  rw [varDecl]
  refine .of_yields (yields_expect hw) fun _ ↦ ?_
  refine (expect_outcome (by decide) more).bind (show word :: more = [word] ++ more from rfl)
    ?_ ?_ ?_
  · rintro _ rest name _ rfl ⟨rfl, hn⟩
    refine (expect_outcome (by decide) rest).bind
      (show word :: ([name] ++ rest) = [word, name] ++ rest from rfl) ?_ ?_ ?_
    · rintro _ rest colon _ rfl ⟨rfl, hc⟩
      refine (expect_outcome (by decide) rest).bind
        (show _ = [word, name, colon] ++ rest from rfl) ?_ ?_ ?_
      · rintro _ rest type _ rfl ⟨rfl, ht⟩
        by_cases hassign : startsWith .assign rest
        · obtain ⟨eq, rest, rfl, heq⟩ : ∃ t more, rest = t :: more ∧ t.kind = .assign := by
            cases rest <;> simp_all
          simp only [hassign, if_true, List.tail_cons]
          refine (binary_outcome 3 rest).bind
            (show _ = [word, name, colon, type, eq] ++ rest from rfl) ?_ ?_ ?_
          · rintro us rest' e _ rfl ⟨he, hends⟩
            refine ⟨word :: name :: colon :: type :: eq :: us, rfl, ?_, ?_⟩
            · exact Extent.between_eq_spanning endMark
                (show _ = word :: name :: colon :: type :: eq :: us ++ rest' from rfl) (by simp) ▸
                  .initial hw hn hc ht heq he
            · exact (Ends.suffix_iff ⟨[word, name, colon, type, eq], rfl⟩ he.ne_nil).1 hends
          · rintro us ⟨e, he⟩
            exact .done ⟨_, .initial hw hn hc ht heq he⟩
          · intro e us _ hus
            refine ⟨hstart _, ?_⟩
            change Refuses (varDecl endMark (word :: name :: colon :: type :: eq :: us))
            rw [varDecl]
            refine (yields_expect hw).refuses fun _ ↦ ?_
            refine (yields_expect hn).refuses fun _ ↦ ?_
            refine (yields_expect hc).refuses fun _ ↦ ?_
            refine (yields_expect ht).refuses fun _ ↦ ?_
            simp only [startsWith_cons, heq, decide_true, if_true, List.tail_cons]
            exact hus.bind _
        · simp only [hassign]
          refine ⟨[word, name, colon, type], rfl, ?_, by simpa [DeclarationEnds] using hassign⟩
          exact Extent.between_eq_spanning endMark
            (show _ = [word, name, colon, type] ++ rest from rfl) (by simp) ▸ .plain hw hn hc ht
      · rintro _ ⟨type, rfl, ht⟩
        exact .done ⟨_, .plain hw hn hc ht⟩
      · intro e us _ hus
        refine ⟨hstart _, ?_⟩
        change Refuses (varDecl endMark (word :: name :: colon :: us))
        rw [varDecl]
        refine (yields_expect hw).refuses fun _ ↦ ?_
        refine (yields_expect hn).refuses fun _ ↦ ?_
        exact (yields_expect hc).refuses fun _ ↦ hus.bind _
    · rintro _ ⟨colon, rfl, hc⟩
      exact .more .type (by decide) fun type ht ↦ .done ⟨_, .plain hw hn hc ht⟩
    · intro e us _ hus
      refine ⟨hstart _, ?_⟩
      change Refuses (varDecl endMark (word :: name :: us))
      rw [varDecl]
      refine (yields_expect hw).refuses fun _ ↦ ?_
      exact (yields_expect hn).refuses fun _ ↦ hus.bind _
  · rintro _ ⟨name, rfl, hn⟩
    exact .more .colon (by decide) fun colon hc ↦
      .more .type (by decide) fun type ht ↦ .done ⟨_, .plain hw hn hc ht⟩
  · intro e us _ hus
    refine ⟨hstart _, ?_⟩
    rw [List.singleton_append, varDecl]
    exact (yields_expect hw).refuses fun _ ↦ hus.bind _

theorem varDecls_outcome (ts : List Token) :
    Outcome endMark
      (fun used rest ds ↦ Declarations used ds ∧ (∀ d ∈ ds.getLast?, DeclarationEnds d used rest) ∧
        startsWith .varWord rest = false)
      (fun us ↦ ∃ ds, Declarations us ds) (fun us ↦ Refuses (varDecls endMark us)) ts
      (varDecls endMark ts) := by
  rw [varDecls]
  by_cases hvar : startsWith .varWord ts
  · obtain ⟨word, more, rfl, hw⟩ : ∃ t more, ts = t :: more ∧ t.kind = .varWord := by
      cases ts <;> simp_all
    simp only [hvar, if_true]
    refine (varDecl_outcome hw).bind (show word :: more = [] ++ word :: more from rfl) ?_ ?_ ?_
    · rintro us rest d h hus ⟨hd, hends⟩
      refine (varDecls_outcome rest).bind hus ?_ ?_ ?_
      · rintro vs rest' ds h' rfl ⟨hds, hlast, hrest⟩
        refine ⟨us ++ vs, by simp [hus], .cons hd hds, ?_, hrest⟩
        cases hds with
        | nil => simpa using hends
        | cons hd' hds' =>
          obtain ⟨t, more', rfl, -⟩ := hd'.starts
          intro d' hd'
          exact (DeclarationEnds.suffix_iff ⟨us, rfl⟩ (by simp)).1 (hlast d' (by simpa using hd'))
      · rintro vs ⟨ds, hds⟩
        exact .done ⟨_, .cons hd hds⟩
      · intro e vs halike hvs
        have hread : Yields (varDecl endMark (us ++ vs)) d vs :=
          hd.read (halike.declarationEnds hends) rfl
        have hvar' : startsWith .varWord (us ++ vs) = true := by
          obtain ⟨t, more', rfl, ht⟩ := hd.starts
          simp [ht]
        rw [varDecls]
        simp only [hvar', if_true]
        exact hread.refuses fun _ ↦ hvs.bind _
    · rintro us ⟨d, hd⟩
      refine .done ⟨[d], ?_⟩
      simpa using Declarations.cons hd .nil
    · rintro e us _ ⟨hvar', hus⟩
      rw [List.nil_append, varDecls]
      simp only [hvar', if_true]
      exact hus.bind _
  · simp only [hvar]
    exact ⟨[], rfl, .nil, by simp, by simpa using hvar⟩
termination_by ts.length

theorem bodyParts_outcome (hmark : endMark.kind = .eof) {stop : Kind}
    (hstop : stop = .rightBrace ∨ stop = .eof) (ts : List Token) :
    Outcome endMark
      (fun used rest p ↦ Parts used (rest.headD endMark) p.1 p.2 ∧ ∀ t ∈ rest.head?, t.kind = stop)
      (Completes fun us next (p : VarBlock Extent × Block Extent) ↦ Parts us next p.1 p.2)
      (fun us ↦ Refuses (bodyParts endMark stop us)) ts (bodyParts endMark stop ts) := by
  rw [bodyParts]
  refine (varDecls_outcome ts).bind (show ts = [] ++ ts from rfl) ?_ ?_ ?_
  · rintro us rest ds h rfl ⟨hds, hlast, hvar⟩
    refine (statements_outcome hmark hstop rest).bind rfl ?_ ?_ ?_
    · rintro vs rest' ss h' rfl ⟨hss, hrest⟩
      have hhead : (vs ++ rest').headD endMark = vs.headD (rest'.headD endMark) := by
        cases vs <;> simp
      refine ⟨us ++ vs, by simp, ?_, hrest⟩
      simp only [Extent.between_append, hhead]
      exact .mk hds hss
    · intro vs hcompletes
      refine .done fun next hnext ↦ ?_
      obtain ⟨ss, hss⟩ := hcompletes next hnext
      exact ⟨(_, _), .mk hds hss⟩
    · intro e vs halike hvs
      have hread : Yields (varDecls endMark (us ++ vs)) ds vs :=
        hds.read (fun d hd ↦ halike.declarationEnds (hlast d hd))
          (halike.startsWith hvar (by decide)) rfl
      rw [bodyParts]
      exact hread.refuses fun _ ↦ hvs.bind _
  · rintro us ⟨ds, hds⟩
    refine .done fun next _ ↦ ?_
    have hparts := Parts.mk hds (.nil : Statements [] next [])
    rw [List.append_nil] at hparts
    exact ⟨(_, _), hparts⟩
  · intro e us _ hus
    rw [List.nil_append, bodyParts]
    exact hus.bind _

theorem body_outcome (hmark : endMark.kind = .eof) (ts : List Token) :
    Outcome endMark (fun used _ b ↦ FunctionBody used b) (fun us ↦ ∃ b, FunctionBody us b)
      (fun us ↦ Refuses (body endMark us)) ts (body endMark ts) := by
  rw [body]
  refine (expect_outcome (by decide) ts).bind (show ts = [] ++ ts from rfl) ?_ ?_ ?_
  · rintro _ rest l h rfl ⟨rfl, hl⟩
    refine (bodyParts_outcome hmark (.inl rfl) rest).bind rfl ?_ ?_ ?_
    · rintro us rest' ⟨vars, block⟩ h' rfl ⟨hparts, hrest⟩
      refine (expect_outcome (by decide) rest').bind
        (show [l] ++ (us ++ rest') = l :: us ++ rest' from rfl) ?_ ?_ ?_
      · rintro _ rest'' r h'' rfl ⟨rfl, hr⟩
        have hall : [l] ++ (us ++ ([r] ++ rest'')) = l :: (us ++ [r]) ++ rest'' := by simp
        refine ⟨l :: (us ++ [r]), hall, ?_⟩
        exact Extent.between_eq_spanning endMark hall (by simp) ▸ .mk hl hparts hr
      · rintro _ ⟨r, rfl, hr⟩
        have hnext : startsExpr r.kind = false := by simp [hr, startsExpr]
        obtain ⟨vars', block', hparts'⟩ := hparts.of_next hnext
        exact .done ⟨_, .mk hl hparts' hr⟩
      · intro e vs halike hvs
        exact absurd hvs (halike.not_refuses_expect hrest (by decide))
    · intro us hcompletes
      refine .more .rightBrace (by decide) fun r hr ↦ ?_
      obtain ⟨p, hparts⟩ := hcompletes r (by simp [hr, startsExpr])
      exact .done ⟨_, .mk hl hparts hr⟩
    · intro e us _ hus
      rw [List.singleton_append, body]
      exact (yields_expect hl).refuses fun _ ↦ hus.bind _
  · rintro _ ⟨l, rfl, hl⟩
    exact .more .rightBrace (by decide) fun r hr ↦ .done ⟨_, .mk hl (.mk .nil .nil) hr⟩
  · intro e us _ hus
    rw [List.nil_append, body]
    exact hus.bind _

/-! ## Definitions and whole sources -/

theorem param_outcome (ts : List Token) :
    Outcome endMark (fun used _ p ↦ Parameter used p) (fun us ↦ ∃ p, Parameter us p)
      (fun us ↦ Refuses (param endMark us)) ts (param endMark ts) := by
  rw [param]
  refine (expect_outcome (by decide) ts).bind (show ts = [] ++ ts from rfl) ?_ ?_ ?_
  · rintro _ rest name _ rfl ⟨rfl, hn⟩
    refine (expect_outcome (by decide) rest).bind rfl ?_ ?_ ?_
    · rintro _ rest colon _ rfl ⟨rfl, hc⟩
      refine (expect_outcome (by decide) rest).bind (show _ = [name, colon] ++ rest from rfl)
        ?_ ?_ ?_
      · rintro _ rest type _ rfl ⟨rfl, ht⟩
        refine ⟨[name, colon, type], rfl, ?_⟩
        exact Extent.between_eq_spanning endMark (show _ = [name, colon, type] ++ rest from rfl)
          (by simp) ▸ .mk hn hc ht
      · rintro _ ⟨type, rfl, ht⟩
        exact .done ⟨_, .mk hn hc ht⟩
      · intro e us _ hus
        change Refuses (param endMark (name :: colon :: us))
        rw [param]
        refine (yields_expect hn).refuses fun _ ↦ ?_
        exact (yields_expect hc).refuses fun _ ↦ hus.bind _
    · rintro _ ⟨colon, rfl, hc⟩
      exact .more .type (by decide) fun type ht ↦ .done ⟨_, .mk hn hc ht⟩
    · intro e us _ hus
      rw [List.singleton_append, param]
      exact (yields_expect hn).refuses fun _ ↦ hus.bind _
  · rintro _ ⟨name, rfl, hn⟩
    exact .more .colon (by decide) fun colon hc ↦
      .more .type (by decide) fun type ht ↦ .done ⟨_, .mk hn hc ht⟩
  · intro e us _ hus
    rw [List.nil_append, param]
    exact hus.bind _

theorem paramList_outcome (ts : List Token) :
    Outcome endMark (fun used _ ps ↦ ParameterList used ps) (fun us ↦ ∃ ps, ParameterList us ps)
      (fun us ↦ Refuses (paramList endMark us)) ts (paramList endMark ts) := by
  rw [paramList]
  refine (param_outcome ts).bind (show ts = [] ++ ts from rfl) ?_ ?_ ?_
  · rintro us rest p h rfl hp
    by_cases hcomma : startsWith .comma rest
    · obtain ⟨comma, rest, rfl, hc⟩ : ∃ t more, rest = t :: more ∧ t.kind = .comma := by
        cases rest <;> simp_all
      simp only [hcomma, if_true, List.tail_cons]
      refine (paramList_outcome rest).bind
        (show us ++ comma :: rest = (us ++ [comma]) ++ rest by simp) ?_ ?_ ?_
      · rintro vs rest' ps h' rfl hs
        exact ⟨us ++ comma :: vs, by simp, .more hp hc hs⟩
      · rintro vs ⟨ps, hs⟩
        exact .done ⟨_, by simpa using ParameterList.more hp hc hs⟩
      · intro e vs _ hvs
        have hread : Yields (param endMark (us ++ [comma] ++ vs)) p (comma :: vs) :=
          hp.read (by simp)
        rw [paramList]
        refine hread.refuses fun _ ↦ ?_
        simp only [startsWith_cons, hc, decide_true, if_true, List.tail_cons]
        exact hvs.bind _
    · simp only [hcomma]
      refine (expect_outcome (by decide) rest).bind rfl ?_ ?_ ?_
      · rintro _ rest' r h' rfl ⟨rfl, hr⟩
        exact ⟨us ++ [r], by simp, .last hp hr⟩
      · rintro _ ⟨r, rfl, hr⟩
        exact .done ⟨_, .last hp hr⟩
      · intro e vs halike hvs
        rw [paramList]
        refine (hp.read rfl).refuses fun _ ↦ ?_
        simp only [halike.startsWith (by simpa using hcomma) (by decide)]
        exact hvs.bind _
  · rintro us ⟨p, hp⟩
    exact .more .rightParen (by decide) fun r hr ↦ .done ⟨_, .last hp hr⟩
  · intro e us _ hus
    rw [List.nil_append, paramList]
    exact hus.bind _
termination_by ts.length
decreasing_by simp_all; omega

theorem params_outcome (ts : List Token) :
    Outcome endMark (fun used _ ps ↦ Parameters used ps) (fun us ↦ ∃ ps, Parameters us ps)
      (fun us ↦ Refuses (params endMark us)) ts (params endMark ts) := by
  by_cases hparen : ∃ r more, ts = r :: more ∧ r.kind = .rightParen
  · obtain ⟨r, more, rfl, hr⟩ := hparen
    rw [params, if_pos hr]
    exact ⟨[r], rfl, .none hr⟩
  · have hlist : ∀ us, (∀ r more, us = r :: more → r.kind ≠ .rightParen) →
        params endMark us = paramList endMark us := by
      intro us hus
      cases us with
      | nil => rw [params]
      | cons r more => rw [params, if_neg (hus r more rfl)]
    rw [hlist ts fun r more hts hr ↦ hparen ⟨r, more, hts, hr⟩]
    refine (paramList_outcome ts).last (show ts = [] ++ ts from rfl) ?_ ?_ ?_
    · intro us rest ps _ hs
      exact .some hs
    · rintro us ⟨ps, hs⟩
      exact .done ⟨ps, .some hs⟩
    · rintro e us ⟨t, t', more, more', rfl, rfl, halike⟩ hus
      have ht : t.kind ∉ [Kind.rightParen] := by simpa using hparen
      have ht' : t'.kind ∉ [Kind.rightParen] := halike.kind_notMem ht (by decide)
      rw [List.nil_append, params, if_neg (by simpa using ht')]
      exact hus

theorem returnType_outcome (ts : List Token) :
    Outcome endMark
      (fun used rest returns ↦
        ReturnType used returns ∧ (used = [] → startsWith .colon rest = false))
      (fun us ↦ ∃ returns, ReturnType us returns) (fun us ↦ Refuses (returnType endMark us)) ts
      (returnType endMark ts) := by
  cases ts with
  | nil => exact ⟨[], rfl, .none, by simp⟩
  | cons t more =>
    rw [returnType]
    by_cases ht : t.kind = .colon
    · rw [if_pos ht]
      refine (expect_outcome (by decide) more).bind (show t :: more = [t] ++ more from rfl) ?_ ?_ ?_
      · rintro _ rest type _ rfl ⟨rfl, htype⟩
        exact ⟨[t, type], rfl, .some ht htype, by simp⟩
      · rintro _ ⟨type, rfl, htype⟩
        exact .done ⟨_, .some ht htype⟩
      · intro e us _ hus
        rw [List.singleton_append, returnType, if_pos ht]
        exact hus.bind _
    · rw [if_neg ht]
      exact ⟨[], rfl, .none, by simpa using ht⟩

theorem funcDef_outcome (hmark : endMark.kind = .eof) {word : Token} {more : List Token}
    (hw : word.kind = .funcWord) :
    Outcome endMark (fun used _ f ↦ Function used f) (fun us ↦ ∃ f, Function us f)
      (fun us ↦ startsWith .funcWord us = true ∧ Refuses (funcDef endMark us)) (word :: more)
      (funcDef endMark (word :: more)) := by
  have hstart : ∀ us, startsWith .funcWord (word :: us) = true := by simp [hw]
  rw [funcDef]
  refine .of_yields (yields_expect hw) fun _ ↦ ?_
  refine (expect_outcome (by decide) more).bind (show word :: more = [word] ++ more from rfl)
    ?_ ?_ ?_
  · rintro _ rest name _ rfl ⟨rfl, hn⟩
    refine (expect_outcome (by decide) rest).bind
      (show word :: ([name] ++ rest) = [word, name] ++ rest from rfl) ?_ ?_ ?_
    · rintro _ rest l _ rfl ⟨rfl, hl⟩
      refine (params_outcome rest).bind (show _ = [word, name, l] ++ rest from rfl) ?_ ?_ ?_
      · rintro us rest ps _ rfl hp
        refine (returnType_outcome rest).bind (show _ = word :: name :: l :: us ++ rest from rfl)
          ?_ ?_ ?_
        · rintro vs rest returns _ rfl ⟨hr, hcolon⟩
          refine (body_outcome hmark rest).bind
            (show _ = word :: name :: l :: (us ++ vs) ++ rest by simp) ?_ ?_ ?_
          · rintro ws rest' b _ rfl hb
            have hall : word :: ([name] ++ ([l] ++ (us ++ (vs ++ (ws ++ rest'))))) =
                word :: name :: l :: (us ++ vs ++ ws) ++ rest' := by simp
            refine ⟨word :: name :: l :: (us ++ vs ++ ws), hall, ?_⟩
            exact Extent.between_eq_spanning endMark hall (by simp) ▸ .mk hw hn hl hp hr hb
          · rintro ws ⟨b, hb⟩
            exact .done ⟨_, .mk hw hn hl hp hr hb⟩
          · intro e ws halike hws
            have hparams : Yields (params endMark (us ++ vs ++ ws)) ps (vs ++ ws) :=
              hp.read (by simp)
            have hreturns : Yields (returnType endMark (vs ++ ws)) returns ws :=
              hr.read (fun hvs ↦ halike.startsWith (hcolon hvs) (by decide)) rfl
            refine ⟨hstart _, ?_⟩
            change Refuses (funcDef endMark (word :: name :: l :: (us ++ vs ++ ws)))
            rw [funcDef]
            refine (yields_expect hw).refuses fun _ ↦ ?_
            refine (yields_expect hn).refuses fun _ ↦ ?_
            refine (yields_expect hl).refuses fun _ ↦ ?_
            refine hparams.refuses fun _ ↦ ?_
            exact hreturns.refuses fun _ ↦ hws.bind _
        · rintro vs ⟨returns, hr⟩
          exact completable_function_of_returnType hw hn hl hp hr
        · intro e vs _ hvs
          refine ⟨hstart _, ?_⟩
          change Refuses (funcDef endMark (word :: name :: l :: (us ++ vs)))
          rw [funcDef]
          refine (yields_expect hw).refuses fun _ ↦ ?_
          refine (yields_expect hn).refuses fun _ ↦ ?_
          refine (yields_expect hl).refuses fun _ ↦ ?_
          exact (hp.read rfl).refuses fun _ ↦ hvs.bind _
      · rintro us ⟨ps, hp⟩
        exact completable_function_of_parameters hw hn hl hp
      · intro e us _ hus
        refine ⟨hstart _, ?_⟩
        change Refuses (funcDef endMark (word :: name :: l :: us))
        rw [funcDef]
        refine (yields_expect hw).refuses fun _ ↦ ?_
        refine (yields_expect hn).refuses fun _ ↦ ?_
        exact (yields_expect hl).refuses fun _ ↦ hus.bind _
    · rintro _ ⟨l, rfl, hl⟩
      exact completable_function_of_paren hw hn hl
    · intro e us _ hus
      refine ⟨hstart _, ?_⟩
      change Refuses (funcDef endMark (word :: name :: us))
      rw [funcDef]
      refine (yields_expect hw).refuses fun _ ↦ ?_
      exact (yields_expect hn).refuses fun _ ↦ hus.bind _
  · rintro _ ⟨name, rfl, hn⟩
    exact .more .leftParen (by decide) fun l hl ↦ completable_function_of_paren hw hn hl
  · intro e us _ hus
    refine ⟨hstart _, ?_⟩
    rw [List.singleton_append, funcDef]
    exact (yields_expect hw).refuses fun _ ↦ hus.bind _

theorem funcDefs_outcome (hmark : endMark.kind = .eof) (ts : List Token) :
    Outcome endMark (fun used rest fs ↦ Functions used fs ∧ startsWith .funcWord rest = false)
      (fun us ↦ ∃ fs, Functions us fs) (fun us ↦ Refuses (funcDefs endMark us)) ts
      (funcDefs endMark ts) := by
  rw [funcDefs]
  by_cases hfunc : startsWith .funcWord ts
  · obtain ⟨word, more, rfl, hw⟩ : ∃ t more, ts = t :: more ∧ t.kind = .funcWord := by
      cases ts <;> simp_all
    simp only [hfunc, if_true]
    refine (funcDef_outcome hmark hw).bind (show word :: more = [] ++ word :: more from rfl)
      ?_ ?_ ?_
    · rintro us rest f h hus hf
      refine (funcDefs_outcome hmark rest).bind hus ?_ ?_ ?_
      · rintro vs rest' fs h' rfl ⟨hfs, hrest⟩
        exact ⟨us ++ vs, by simp [hus], .cons hf hfs, hrest⟩
      · rintro vs ⟨fs, hfs⟩
        exact .done ⟨_, .cons hf hfs⟩
      · intro e vs _ hvs
        have hread : Yields (funcDef endMark (us ++ vs)) f vs := hf.read rfl
        have hfunc' : startsWith .funcWord (us ++ vs) = true := by
          obtain ⟨hw', -, -, -, -, -⟩ := hf
          simp [hw']
        rw [funcDefs]
        simp only [hfunc', if_true]
        exact hread.refuses fun _ ↦ hvs.bind _
    · rintro us ⟨f, hf⟩
      refine .done ⟨[f], ?_⟩
      simpa using Functions.cons hf .nil
    · rintro e us _ ⟨hfunc', hus⟩
      rw [List.nil_append, funcDefs]
      simp only [hfunc', if_true]
      exact hus.bind _
  · simp only [hfunc]
    exact ⟨[], rfl, .nil, by simpa using hfunc⟩
termination_by ts.length

/-- Whether the tokens, with any mark at the end, are derived. -/
def Marked {α : Type} (derives : List Token → α → Prop) (ts : List Token) : Prop :=
  ∀ stop : Token, stop.kind = .eof → ∃ x, derives (ts ++ [stop]) x

/-- What reading all of `ts` comes to. -/
def SourceOutcome {α : Type} (endMark : Token) (derives : List Token → α → Prop)
    (read : List Token → Except SyntaxError α) (ts : List Token) : Prop :=
  match read ts with
  | .ok x => derives (ts ++ [endMark]) x
  | .error e => Stuck endMark (Marked derives) (fun us ↦ ∃ e, read us = .error e) ts e

theorem script_of_error {ts : List Token} {e : SyntaxError} (h : funcDefs endMark ts = .error e) :
    script endMark ts = .error e := by
  rw [script, h]
  rfl

theorem script_of_yields {ts rest : List Token} {fs : List (FuncDef Extent)}
    (h : Yields (funcDefs endMark ts) fs rest) :
    script endMark ts = (bodyParts endMark .eof rest).map fun p ↦
      ⟨.between endMark ts p.rest, fs,
        some ⟨.between endMark rest p.rest, p.value.1, p.value.2⟩⟩ := by
  obtain ⟨h, hread⟩ := h
  rw [script, hread]
  cases hparts : bodyParts endMark .eof rest <;> simp only [bind, Except.bind, hparts] <;> rfl

theorem script_outcome (hmark : endMark.kind = .eof) {ts : List Token}
    (hts : ∀ t ∈ ts, t.kind ≠ .eof) :
    SourceOutcome endMark Program (script endMark) ts := by
  have hfuncs := funcDefs_outcome hmark ts
  unfold SourceOutcome
  cases hread : funcDefs endMark ts with
  | error e =>
    rw [hread] at hfuncs
    rw [script_of_error hread]
    refine Stuck.lift hfuncs (show ts = [] ++ ts from rfl) ?_ ?_
    · rintro us ⟨fs, hfs⟩
      refine .done fun stop hstop ↦ ?_
      have hprogram := Program.mk hfs (.mk .nil (.nil : Statements [] stop [])) hstop
      rw [List.append_nil, List.append_nil] at hprogram
      exact ⟨_, hprogram⟩
    · rintro us _ ⟨e', hus⟩
      exact ⟨e', script_of_error hus⟩
  | ok p =>
    rw [hread] at hfuncs
    obtain ⟨fs, rest, hlt⟩ := p
    obtain ⟨used, rfl, hfs, hfunc⟩ :
        ∃ used, ts = used ++ rest ∧ Functions used fs ∧ startsWith .funcWord rest = false := hfuncs
    have hparts := bodyParts_outcome hmark (.inr rfl) rest
    rw [script_of_yields ⟨hlt, hread⟩]
    cases hread' : bodyParts endMark .eof rest with
    | error e =>
      rw [hread'] at hparts
      refine Stuck.lift hparts rfl ?_ ?_
      · intro us hcompletes
        refine .done fun stop hstop ↦ ?_
        obtain ⟨q, hq⟩ := hcompletes stop (by simp [hstop, startsExpr])
        exact ⟨_, .mk hfs hq hstop⟩
      · rintro us halike ⟨e', hus⟩
        have hfuncs' : Yields (funcDefs endMark (used ++ us)) fs us :=
          hfs.read (halike.startsWith hfunc (by decide)) rfl
        refine ⟨e', ?_⟩
        rw [script_of_yields hfuncs', hus]
        rfl
    | ok q =>
      rw [hread'] at hparts
      obtain ⟨⟨vars, block⟩, rest', hlt'⟩ := q
      obtain ⟨us, rfl, hq, hrest⟩ : ∃ us, rest = us ++ rest' ∧
          Parts us (rest'.headD endMark) vars block ∧ ∀ t ∈ rest'.head?, t.kind = .eof := hparts
      -- Only the end of the source ends the statements of the main part.
      obtain rfl : rest' = [] := by
        cases rest' with
        | nil => rfl
        | cons t more => exact absurd (hrest t (by simp)) (hts t (by simp))
      have hnote : ∀ vs, Extent.between endMark vs [] = .ofTokens endMark vs := by
        intro vs
        simpa using Extent.between_append endMark vs []
      simp only [Except.map, hnote, List.append_nil]
      exact .mk hfs hq hmark

theorem wholeExpression_of_error {ts : List Token} {e : SyntaxError}
    (h : binary endMark 3 ts = .error e) : wholeExpression endMark ts = .error e := by
  rw [wholeExpression, expression, h]
  rfl

theorem wholeExpression_of_yields {ts rest : List Token} {e : Expr Extent}
    (h : Yields (binary endMark 3 ts) e rest) :
    wholeExpression endMark ts =
      if rest.isEmpty then .ok e else fail endMark .endOfExpression rest := by
  obtain ⟨h, hread⟩ := h
  rw [wholeExpression, expression, hread]
  rfl

theorem wholeExpression_outcome (hmark : endMark.kind = .eof) (ts : List Token) :
    SourceOutcome endMark Standalone (wholeExpression endMark) ts := by
  have hexpr := @binary_outcome endMark 3 ts
  unfold SourceOutcome
  cases hread : binary endMark 3 ts with
  | error e =>
    rw [hread] at hexpr
    rw [wholeExpression_of_error hread]
    refine Stuck.lift hexpr (show ts = [] ++ ts from rfl) ?_ ?_
    · rintro us ⟨e', he'⟩
      exact .done fun stop hstop ↦ ⟨e', .mk he' hstop⟩
    · rintro us _ ⟨e', hus⟩
      exact ⟨e', wholeExpression_of_error hus⟩
  | ok p =>
    rw [hread] at hexpr
    obtain ⟨e, rest, hlt⟩ := p
    obtain ⟨used, rfl, he, hends⟩ :
        ∃ used, ts = used ++ rest ∧ Expression 3 used e ∧ Ends 3 used rest := hexpr
    rw [wholeExpression_of_yields ⟨hlt, hread⟩]
    cases rest with
    | nil =>
      simp only [List.append_nil]
      exact .mk he hmark
    | cons t more =>
      refine ⟨used, t :: more, rfl, .inl ⟨_, rfl⟩, ?_, ?_, ?_⟩
      · exact .done fun stop hstop ↦ ⟨_, .mk he hstop⟩
      · intro hlate
        exact absurd hlate (unexpected_fault_ne _ _)
      · rintro _ t' more' ⟨⟩ halike
        have hbegin : BeginAlike _ (t :: more) (t' :: more') := ⟨t, t', _, _, rfl, rfl, halike⟩
        rw [wholeExpression_of_yields (he.read (hbegin.ends hends) rfl)]
        exact ⟨_, rfl⟩

end Parser

end ScriptAnalysis
