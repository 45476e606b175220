import ScriptAnalysis.Proofs.Placement

/-!
# Reading two rows of tokens side by side

Reading asks of a token what it is and what its characters are. Where it stands is asked at one
place only: after the word `return`, a value has to begin on the same line. So two rows of tokens
that agree in this much are read with the same success. What is read differs in spans alone, and an
error is the same and is found at the same token.
-/

namespace ScriptAnalysis

/-- An extent without its place. -/
def Extent.unplaced (x : Extent) : Extent := ⟨⟨⟨0, 0⟩, ⟨0, 0⟩⟩, x.text⟩

theorem Extent.unplaced_ofTokens (next : Token) (ts : List Token) :
    (Extent.ofTokens next ts).unplaced =
      ⟨⟨⟨0, 0⟩, ⟨0, 0⟩⟩, String.join (ts.map Token.lexeme)⟩ := by
  cases ts <;> rfl

/-- Whether a row of pairs of tokens, before the two marks of the end, is read on both sides alike:
the tokens of each pair are the same, and after each `return` it depends on neither side whether
the next token is on its line. -/
structure Congruent (ends : Token × Token) (ps : List (Token × Token)) : Prop where
  marks : ends.1.bare = ends.2.bare
  matched : Matched ps
  returns : ∀ word next more, word :: next :: more <:+ ps → word.1.kind = .returnWord →
    (next.1.line = word.1.line ↔ next.2.line = word.2.line)

namespace Congruent

variable {ends : Token × Token} {p : Token × Token} {ps qs : List (Token × Token)}

theorem suffix (h : Congruent ends ps) (hqs : qs <:+ ps) : Congruent ends qs where
  marks := h.marks
  matched p hp := h.matched p (hqs.mem hp)
  returns word next more hmore := h.returns word next more (hmore.trans hqs)

theorem tail (h : Congruent ends (p :: ps)) : Congruent ends ps := h.suffix (List.suffix_cons p ps)

theorem kind_eq (h : Congruent ends (p :: ps)) : p.2.kind = p.1.kind := h.matched.head_kind rfl

theorem lexeme_eq (h : Congruent ends (p :: ps)) : p.2.lexeme = p.1.lexeme := h.matched.head_lexeme

theorem head_bare (h : Congruent ends ps) :
    ((ps.map Prod.fst).headD ends.1).bare = ((ps.map Prod.snd).headD ends.2).bare := by
  cases ps with
  | nil => exact h.marks
  | cons p ps => exact h.matched p List.mem_cons_self

theorem unplaced_between (h : Congruent ends ps) (qs : List (Token × Token)) :
    (Extent.between ends.1 (ps.map Prod.fst) (qs.map Prod.fst)).unplaced =
      (Extent.between ends.2 (ps.map Prod.snd) (qs.map Prod.snd)).unplaced := by
  have htaken : Matched (ps.take (ps.length - qs.length)) := fun p hp ↦
    h.matched p (List.mem_of_mem_take hp)
  rw [Extent.between, Extent.between, Extent.unplaced_ofTokens, Extent.unplaced_ofTokens]
  simp only [List.length_map, ← List.map_take]
  rw [htaken.join_eq]

theorem startsWith_eq (h : Congruent ends ps) (kind : Kind) :
    Parser.startsWith kind (ps.map Prod.fst) = Parser.startsWith kind (ps.map Prod.snd) := by
  cases ps with
  | nil => rfl
  | cons p ps => simp [Parser.startsWith, h.kind_eq]

theorem startsCall_eq (h : Congruent ends ps) :
    Parser.startsCall (ps.map Prod.fst) = Parser.startsCall (ps.map Prod.snd) := by
  cases ps with
  | nil => rfl
  | cons p ps =>
    simp only [Parser.startsCall, List.map_cons, h.kind_eq, h.tail.startsWith_eq]

/-- A value follows a `return` on both sides or on neither. -/
theorem startsValue_eq (h : Congruent ends (p :: ps)) (hp : p.1.kind = .returnWord) :
    Parser.startsValue p.1 (ps.map Prod.fst) = Parser.startsValue p.2 (ps.map Prod.snd) := by
  cases ps with
  | nil => rfl
  | cons q ps =>
    have hline := h.returns p q ps (List.suffix_refl _) hp
    simp [Parser.startsValue, h.tail.kind_eq, hline]

end Congruent

theorem Token.lexeme_of_bare {t t' : Token} (h : t.bare = t'.bare) : t.lexeme = t'.lexeme :=
  congrArg Prod.snd h

theorem SyntaxError.fault_unexpected {t t' : Token} (h : t.bare = t'.bare) (expected : Expected) :
    (SyntaxError.unexpected t expected).fault = (SyntaxError.unexpected t' expected).fault := by
  obtain ⟨hkind, hlexeme⟩ : t.kind = t'.kind ∧ t.lexeme = t'.lexeme := by
    simpa [Token.bare] using h
  simp only [SyntaxError.unexpected, hkind, hlexeme]

namespace Parser

variable {α β γ δ : Type} {ends : Token × Token} {view : α → γ} {view' : β → δ}
  {ps qs : List (Token × Token)} {m m' n n' : Nat}

/-- Whether the two sides of a row were read alike: to values with the same view, leaving the two
sides of what is left of the row, or to the same error at the two tokens of one pair. -/
inductive Agree (ends : Token × Token) (view : α → γ) (ps : List (Token × Token)) {m m' : Nat} :
    Result α m → Result α m' → Prop
  | ok {rest : List (Token × Token)} {value value' : α} {h h'} :
      rest <:+ ps → view value = view value' →
      Agree ends view ps (.ok ⟨value, rest.map Prod.fst, h⟩) (.ok ⟨value', rest.map Prod.snd, h'⟩)
  | error {rest : List (Token × Token)} {fault : SyntaxFault} :
      rest <:+ ps →
      Agree ends view ps (.error ⟨(rest.map Prod.fst).headD ends.1, fault⟩)
        (.error ⟨(rest.map Prod.snd).headD ends.2, fault⟩)

namespace Agree

/-- Reading goes on alike after what was read alike. -/
theorem bind {r : Result α m} {r' : Result α m'} (h : Agree ends view qs r r') (hqs : qs <:+ ps)
    {next : Parsed α m → Result β n} {next' : Parsed α m' → Result β n'}
    (hnext : ∀ (rest : List (Token × Token)) (value value' : α) h h', rest <:+ ps →
      view value = view value' → Agree ends view' ps (next ⟨value, rest.map Prod.fst, h⟩)
        (next' ⟨value', rest.map Prod.snd, h'⟩)) :
    Agree ends view' ps (r >>= next) (r' >>= next') := by
  cases h with
  | ok hrest hvalue => exact hnext _ _ _ _ _ (hrest.trans hqs) hvalue
  | error hrest => exact .error (hrest.trans hqs)

/-- Both sides take the same branch. -/
theorem ite {c c' : Prop} [Decidable c] [Decidable c'] {r s : Result α m} {r' s' : Result α m'}
    (hc : c ↔ c') (hpos : c → Agree ends view ps r r') (hneg : ¬c → Agree ends view ps s s') :
    Agree ends view ps (if c then r else s) (if c' then r' else s') := by
  by_cases h : c
  · rw [if_pos h, if_pos (hc.1 h)]
    exact hpos h
  · rw [if_neg h, if_neg fun h' ↦ h (hc.2 h')]
    exact hneg h

end Agree

theorem fail_agree (hps : Congruent ends ps) (expected : Expected) :
    Agree ends view ps (fail ends.1 expected (ps.map Prod.fst) : Result α m)
      (fail ends.2 expected (ps.map Prod.snd) : Result α m') := by
  have hfault := SyntaxError.fault_unexpected hps.head_bare expected
  unfold fail
  rw [show SyntaxError.unexpected ((ps.map Prod.snd).headD ends.2) expected =
    ⟨(ps.map Prod.snd).headD ends.2, _⟩ from congrArg (SyntaxError.mk _) hfault.symm]
  exact .error (List.suffix_refl ps)

theorem expect_agree (hps : Congruent ends ps) (kind : Kind) :
    Agree ends Token.bare ps (expect ends.1 kind (ps.map Prod.fst))
      (expect ends.2 kind (ps.map Prod.snd)) := by
  match ps, hps with
  | [], hps => exact fail_agree hps _
  | p :: ps, hps =>
    refine .ite (by rw [hps.kind_eq]) (fun _ ↦ ?_) fun _ ↦ fail_agree hps _
    exact .ok (List.suffix_cons p ps) (hps.matched p List.mem_cons_self)

/-! ## Expressions -/

/-- What a call was read to but for its span. -/
def callView (call : Extent × String × List (Expr Extent)) :
    Extent × String × List (Expr Extent) :=
  (call.1.unplaced, call.2.1, Expr.mapAll Extent.unplaced call.2.2)

theorem callView_inj {call call' : Extent × String × List (Expr Extent)}
    (h : callView call = callView call') :
    call.1.unplaced = call'.1.unplaced ∧ call.2.1 = call'.2.1 ∧
      Expr.mapAll Extent.unplaced call.2.2 = Expr.mapAll Extent.unplaced call'.2.2 := by
  simpa [callView] using h

mutual

theorem binary_agree (level : Nat) (ps : List (Token × Token)) (hps : Congruent ends ps) :
    Agree ends (Expr.map Extent.unplaced) ps (binary ends.1 level (ps.map Prod.fst))
      (binary ends.2 level (ps.map Prod.snd)) := by
  match level with
  | 0 =>
    rw [binary, binary]
    exact unary_agree ps hps
  | level + 1 =>
    rw [binary, binary]
    refine (binary_agree level ps hps).bind (List.suffix_refl ps) ?_
    intro rest left left' h h' hrest hleft
    have hshorter : rest.length < ps.length := by simpa using h
    exact chain_agree level hps hrest hleft h h'
termination_by 16 * ps.length + level + 3

theorem chain_agree (level : Nat) {start ps : List (Token × Token)} {left left' : Expr Extent}
    (hstart : Congruent ends start) (hps : ps <:+ start)
    (hleft : left.map Extent.unplaced = left'.map Extent.unplaced)
    (h : (ps.map Prod.fst).length < (start.map Prod.fst).length)
    (h' : (ps.map Prod.snd).length < (start.map Prod.snd).length) :
    Agree ends (Expr.map Extent.unplaced) start
      (chain ends.1 level (start.map Prod.fst) left (ps.map Prod.fst) h)
      (chain ends.2 level (start.map Prod.snd) left' (ps.map Prod.snd) h') := by
  match ps with
  | [] =>
    change Agree _ _ _ (chain ends.1 level _ left [] h) (chain ends.2 level _ left' [] h')
    rw [chain, chain]
    exact .ok hps hleft
  | p :: more =>
    have hcongr := hstart.suffix hps
    change Agree _ _ _ (chain ends.1 level _ left (p.1 :: more.map Prod.fst) h)
      (chain ends.2 level _ left' (p.2 :: more.map Prod.snd) h')
    rw [chain, chain, hcongr.kind_eq]
    cases Operator.ofKind? p.1.kind with
    | none => exact .ok hps hleft
    | some op =>
      refine .ite Iff.rfl (fun _ ↦ ?_) fun _ ↦ .ok hps hleft
      refine (binary_agree level more hcongr.tail).bind ((List.suffix_cons p more).trans hps) ?_
      intro rest right right' hr hr' hrest hright
      have hshorter : rest.length < more.length := by simpa using hr
      refine chain_agree level hstart hrest ?_ _ _
      rw [Expr.map, Expr.map, hleft, hright, hstart.unplaced_between]
termination_by 16 * ps.length + level

theorem unary_agree (ps : List (Token × Token)) (hps : Congruent ends ps) :
    Agree ends (Expr.map Extent.unplaced) ps (unary ends.1 (ps.map Prod.fst))
      (unary ends.2 (ps.map Prod.snd)) := by
  match ps, hps with
  | [], hps =>
    change Agree _ _ _ (unary ends.1 []) (unary ends.2 [])
    rw [unary, unary]
    exact primary_agree [] hps
  | p :: more, hps =>
    change Agree _ _ _ (unary ends.1 (p.1 :: more.map Prod.fst))
      (unary ends.2 (p.2 :: more.map Prod.snd))
    rw [unary, unary]
    refine .ite (by rw [hps.kind_eq]) (fun _ ↦ ?_) fun _ ↦ primary_agree (p :: more) hps
    refine (unary_agree more hps.tail).bind (List.suffix_cons p more) ?_
    intro rest operand operand' h h' hrest hoperand
    refine .ok hrest ?_
    have hnotes := hps.unplaced_between rest
    rw [Expr.map, Expr.map, hoperand, hps.lexeme_eq]
    exact congrArg (Expr.negate · _ _) hnotes
termination_by 16 * ps.length + 2

theorem primary_agree (ps : List (Token × Token)) (hps : Congruent ends ps) :
    Agree ends (Expr.map Extent.unplaced) ps (primary ends.1 (ps.map Prod.fst))
      (primary ends.2 (ps.map Prod.snd)) := by
  match ps, hps with
  | [], hps =>
    change Agree _ _ _ (primary ends.1 []) (primary ends.2 [])
    rw [primary, primary]
    exact fail_agree hps _
  | p :: more, hps =>
    have hnotes (rest : List (Token × Token)) := hps.unplaced_between rest
    have hmore : more <:+ p :: more := List.suffix_cons p more
    simp only [List.map_cons] at hnotes
    change Agree _ _ _ (primary ends.1 (p.1 :: more.map Prod.fst))
      (primary ends.2 (p.2 :: more.map Prod.snd))
    rw [primary, primary, hps.kind_eq]
    cases p.1.kind with
    | int => exact .ok hmore (by rw [Expr.map, Expr.map, hnotes, hps.lexeme_eq])
    | string => exact .ok hmore (by rw [Expr.map, Expr.map, hnotes, hps.lexeme_eq])
    | trueWord => exact .ok hmore (by rw [Expr.map, Expr.map, hnotes])
    | falseWord => exact .ok hmore (by rw [Expr.map, Expr.map, hnotes])
    | ident =>
      refine .ite (by rw [← List.map_cons, ← List.map_cons, hps.startsCall_eq]) (fun _ ↦ ?_)
        fun _ ↦ .ok hmore (by rw [Expr.map, Expr.map, hnotes, hps.lexeme_eq])
      refine (call_agree (p :: more) hps).bind (List.suffix_refl _) ?_
      intro rest call call' h h' hrest hcall
      obtain ⟨hnote, hcallee, hargs⟩ := callView_inj hcall
      exact .ok hrest (by rw [Expr.map, Expr.map, hnote, hcallee, hargs])
    | leftParen =>
      refine (binary_agree 3 more hps.tail).bind hmore ?_
      intro rest inner inner' h h' hrest hinner
      refine (expect_agree (hps.suffix hrest) .rightParen).bind hrest ?_
      intro rest _ _ _ _ hrest _
      exact .ok hrest (by rw [Expr.map, Expr.map, hnotes, hinner])
    | _ => exact fail_agree hps _
termination_by 16 * ps.length + 1

/-- A call: the extent of all of it, the name called and the arguments. -/
theorem call_agree (ps : List (Token × Token)) (hps : Congruent ends ps) :
    Agree ends callView ps (call ends.1 (ps.map Prod.fst)) (call ends.2 (ps.map Prod.snd)) := by
  rw [call, call]
  refine (expect_agree hps .ident).bind (List.suffix_refl ps) ?_
  intro rest₁ name name' h₁ _ hrest₁ hname
  refine (expect_agree (hps.suffix hrest₁) .leftParen).bind hrest₁ ?_
  intro rest₂ _ _ h₂ _ hrest₂ _
  have hshorter : rest₂.length < ps.length := by simp at h₁ h₂; omega
  refine (arguments_agree rest₂ (hps.suffix hrest₂)).bind hrest₂ ?_
  intro rest₃ args args' _ _ hrest₃ hargs
  refine .ok hrest₃ ?_
  rw [callView, callView, hps.unplaced_between, Token.lexeme_of_bare hname, hargs]
termination_by 16 * ps.length

theorem arguments_agree (ps : List (Token × Token)) (hps : Congruent ends ps) :
    Agree ends (Expr.mapAll Extent.unplaced) ps (arguments ends.1 (ps.map Prod.fst))
      (arguments ends.2 (ps.map Prod.snd)) := by
  match ps, hps with
  | [], hps =>
    change Agree _ _ _ (arguments ends.1 []) (arguments ends.2 [])
    rw [arguments, arguments]
    exact argumentList_agree [] hps
  | p :: more, hps =>
    change Agree _ _ _ (arguments ends.1 (p.1 :: more.map Prod.fst))
      (arguments ends.2 (p.2 :: more.map Prod.snd))
    rw [arguments, arguments]
    refine .ite (by rw [hps.kind_eq]) (fun _ ↦ ?_) fun _ ↦ argumentList_agree (p :: more) hps
    exact .ok (List.suffix_cons p more) rfl
termination_by 16 * ps.length + 8

theorem argumentList_agree (ps : List (Token × Token)) (hps : Congruent ends ps) :
    Agree ends (Expr.mapAll Extent.unplaced) ps (argumentList ends.1 (ps.map Prod.fst))
      (argumentList ends.2 (ps.map Prod.snd)) := by
  rw [argumentList, argumentList]
  refine (binary_agree 3 ps hps).bind (List.suffix_refl ps) ?_
  intro rest first first' h h' hrest hfirst
  have hcongr := hps.suffix hrest
  refine .ite (by rw [hcongr.startsWith_eq]) (fun _ ↦ ?_) fun _ ↦ ?_
  · have hshorter : rest.length - 1 < ps.length := by simp at h; omega
    have htail : rest.tail <:+ ps := (List.tail_suffix rest).trans hrest
    have hothers := argumentList_agree rest.tail (hps.suffix htail)
    rw [List.map_tail, List.map_tail] at hothers
    refine hothers.bind htail ?_
    intro rest₂ others others' _ _ hrest₂ hothers
    exact .ok hrest₂ (by rw [Expr.mapAll, Expr.mapAll, hfirst, hothers])
  · refine (expect_agree hcongr .rightParen).bind hrest ?_
    intro rest₂ _ _ _ _ hrest₂ _
    exact .ok hrest₂ (by rw [Expr.mapAll, Expr.mapAll, hfirst]; rfl)
termination_by 16 * ps.length + 7

end

/-! ## Statements -/

theorem expression_agree (hps : Congruent ends ps) :
    Agree ends (Expr.map Extent.unplaced) ps (expression ends.1 (ps.map Prod.fst))
      (expression ends.2 (ps.map Prod.snd)) :=
  binary_agree 3 ps hps

mutual

theorem statement_agree (ps : List (Token × Token)) (hps : Congruent ends ps) :
    Agree ends (Stmt.map Extent.unplaced) ps (statement ends.1 (ps.map Prod.fst))
      (statement ends.2 (ps.map Prod.snd)) := by
  match ps, hps with
  | [], hps =>
    change Agree _ _ _ (statement ends.1 []) (statement ends.2 [])
    rw [statement, statement]
    exact fail_agree hps _
  | p :: more, hps =>
    have hnotes (rest : List (Token × Token)) := hps.unplaced_between rest
    have hmore : more <:+ p :: more := List.suffix_cons p more
    simp only [List.map_cons] at hnotes
    change Agree _ _ _ (statement ends.1 (p.1 :: more.map Prod.fst))
      (statement ends.2 (p.2 :: more.map Prod.snd))
    rw [statement, statement, hps.kind_eq]
    cases hkind : p.1.kind with
    | ident =>
      refine .ite (by rw [← List.map_cons, ← List.map_cons, hps.startsCall_eq]) (fun _ ↦ ?_)
        fun _ ↦ ?_
      · refine (call_agree (p :: more) hps).bind (List.suffix_refl _) ?_
        intro rest call call' h h' hrest hcall
        obtain ⟨hnote, hcallee, hargs⟩ := callView_inj hcall
        exact .ok hrest (by rw [Stmt.map, Stmt.map, hnotes, hnote, hcallee, hargs])
      · refine (expect_agree hps.tail .assign).bind hmore ?_
        intro rest₁ _ _ _ _ hrest₁ _
        refine (expression_agree (hps.suffix hrest₁)).bind hrest₁ ?_
        intro rest₂ value value' _ _ hrest₂ hvalue
        exact .ok hrest₂ (by rw [Stmt.map, Stmt.map, hnotes, hps.lexeme_eq, hvalue])
    | whileWord =>
      refine (expression_agree hps.tail).bind hmore ?_
      intro rest₁ condition condition' h₁ _ hrest₁ hcondition
      have hshorter : rest₁.length < more.length := by simpa using h₁
      refine (braceBlock_agree rest₁ (hps.suffix hrest₁)).bind hrest₁ ?_
      intro rest₂ body body' _ _ hrest₂ hbody
      exact .ok hrest₂ (by rw [Stmt.map, Stmt.map, hnotes, hcondition, hbody])
    | ifWord =>
      refine (expression_agree hps.tail).bind hmore ?_
      intro rest₁ condition condition' h₁ _ hrest₁ hcondition
      have hshorter₁ : rest₁.length < more.length := by simpa using h₁
      refine (braceBlock_agree rest₁ (hps.suffix hrest₁)).bind hrest₁ ?_
      intro rest₂ whenTrue whenTrue' h₂ _ hrest₂ hwhenTrue
      have hcongr := hps.suffix hrest₂
      refine .ite (by rw [hcongr.startsWith_eq]) (fun _ ↦ ?_) fun _ ↦ ?_
      · have hshorter₂ : rest₂.length - 1 < more.length := by simp at h₂; omega
        have htail : rest₂.tail <:+ p :: more := (List.tail_suffix rest₂).trans hrest₂
        have hblock := braceBlock_agree rest₂.tail (hps.suffix htail)
        rw [List.map_tail, List.map_tail] at hblock
        refine hblock.bind htail ?_
        intro rest₃ whenFalse whenFalse' _ _ hrest₃ hwhenFalse
        exact .ok hrest₃ (by rw [Stmt.map, Stmt.map, hnotes, hcondition, hwhenTrue, hwhenFalse])
      · exact .ok hrest₂ (by rw [Stmt.map, Stmt.map, hnotes, hcondition, hwhenTrue])
    | printWord =>
      refine (expression_agree hps.tail).bind hmore ?_
      intro rest value value' _ _ hrest hvalue
      exact .ok hrest (by rw [Stmt.map, Stmt.map, hnotes, hvalue])
    | returnWord =>
      refine .ite (by rw [hps.startsValue_eq hkind]) (fun _ ↦ ?_)
        fun _ ↦ .ok hmore (by rw [Stmt.map, Stmt.map, hnotes])
      refine (expression_agree hps.tail).bind hmore ?_
      intro rest value value' _ _ hrest hvalue
      exact .ok hrest (by rw [Stmt.map, Stmt.map, hnotes, hvalue])
    | _ => exact fail_agree hps _
termination_by 2 * ps.length

theorem statements_agree (stop : Kind) (ps : List (Token × Token)) (hps : Congruent ends ps) :
    Agree ends (Stmt.mapAll Extent.unplaced) ps (statements ends.1 stop (ps.map Prod.fst))
      (statements ends.2 stop (ps.map Prod.snd)) := by
  match ps, hps with
  | [], hps =>
    change Agree _ _ _ (statements ends.1 stop []) (statements ends.2 stop [])
    rw [statements, statements]
    exact .ok (List.suffix_refl []) rfl
  | p :: more, hps =>
    change Agree _ _ _ (statements ends.1 stop (p.1 :: more.map Prod.fst))
      (statements ends.2 stop (p.2 :: more.map Prod.snd))
    rw [statements, statements, hps.kind_eq]
    refine .ite Iff.rfl (fun _ ↦ .ok (List.suffix_refl (p :: more)) rfl) fun _ ↦ ?_
    refine .ite Iff.rfl (fun _ ↦ .error (List.suffix_refl (p :: more))) fun _ ↦ ?_
    refine (statement_agree (p :: more) hps).bind (List.suffix_refl _) ?_
    intro rest₁ first first' h₁ _ hrest₁ hfirst
    have hshorter : rest₁.length < more.length + 1 := by simpa using h₁
    refine (statements_agree stop rest₁ (hps.suffix hrest₁)).bind hrest₁ ?_
    intro rest₂ others others' _ _ hrest₂ hothers
    exact .ok hrest₂ (by rw [Stmt.mapAll, Stmt.mapAll, hfirst, hothers])
termination_by 2 * ps.length + 1

theorem braceBlock_agree (ps : List (Token × Token)) (hps : Congruent ends ps) :
    Agree ends (Block.map Extent.unplaced) ps (braceBlock ends.1 (ps.map Prod.fst))
      (braceBlock ends.2 (ps.map Prod.snd)) := by
  rw [braceBlock, braceBlock]
  refine (expect_agree hps .leftBrace).bind (List.suffix_refl ps) ?_
  intro rest₁ _ _ h₁ _ hrest₁ _
  have hshorter : rest₁.length < ps.length := by simpa using h₁
  refine (statements_agree .rightBrace rest₁ (hps.suffix hrest₁)).bind hrest₁ ?_
  intro rest₂ stmts stmts' _ _ hrest₂ hstmts
  refine (expect_agree (hps.suffix hrest₂) .rightBrace).bind hrest₂ ?_
  intro rest₃ _ _ _ _ hrest₃ _
  exact .ok hrest₃ (by rw [Block.map, Block.map, hps.unplaced_between, hstmts])
termination_by 2 * ps.length

end

/-! ## Declarations and programs -/

theorem varDecl_agree (hps : Congruent ends ps) :
    Agree ends (VarDecl.map Extent.unplaced) ps (varDecl ends.1 (ps.map Prod.fst))
      (varDecl ends.2 (ps.map Prod.snd)) := by
  unfold varDecl
  refine (expect_agree hps .varWord).bind (List.suffix_refl ps) ?_
  intro rest₁ _ _ _ _ hrest₁ _
  refine (expect_agree (hps.suffix hrest₁) .ident).bind hrest₁ ?_
  intro rest₂ name name' _ _ hrest₂ hname
  refine (expect_agree (hps.suffix hrest₂) .colon).bind hrest₂ ?_
  intro rest₃ _ _ _ _ hrest₃ _
  refine (expect_agree (hps.suffix hrest₃) .type).bind hrest₃ ?_
  intro rest₄ type type' _ _ hrest₄ htype
  refine .ite (by rw [(hps.suffix hrest₄).startsWith_eq]) (fun _ ↦ ?_) fun _ ↦ ?_
  · have htail : rest₄.tail <:+ ps := (List.tail_suffix rest₄).trans hrest₄
    have hinit := expression_agree (hps.suffix htail)
    rw [List.map_tail, List.map_tail] at hinit
    refine hinit.bind htail ?_
    intro rest₅ init init' _ _ hrest₅ hinit
    refine .ok hrest₅ ?_
    simp only [VarDecl.map, Option.map_some, hps.unplaced_between, Token.lexeme_of_bare hname,
      Token.lexeme_of_bare htype, hinit]
  · refine .ok hrest₄ ?_
    simp only [VarDecl.map, Option.map_none, hps.unplaced_between, Token.lexeme_of_bare hname,
      Token.lexeme_of_bare htype]

theorem varDecls_agree (ps : List (Token × Token)) (hps : Congruent ends ps) :
    Agree ends (List.map (VarDecl.map Extent.unplaced)) ps (varDecls ends.1 (ps.map Prod.fst))
      (varDecls ends.2 (ps.map Prod.snd)) := by
  rw [varDecls, varDecls]
  refine .ite (by rw [hps.startsWith_eq]) (fun _ ↦ ?_) fun _ ↦ .ok (List.suffix_refl ps) rfl
  refine (varDecl_agree hps).bind (List.suffix_refl ps) ?_
  intro rest₁ first first' h₁ _ hrest₁ hfirst
  have hshorter : rest₁.length < ps.length := by simpa using h₁
  refine (varDecls_agree rest₁ (hps.suffix hrest₁)).bind hrest₁ ?_
  intro rest₂ others others' _ _ hrest₂ hothers
  exact .ok hrest₂ (by rw [List.map_cons, List.map_cons, hfirst, hothers])
termination_by ps.length

/-- The parts of a body but for their spans. -/
def partsView (parts : VarBlock Extent × Block Extent) : VarBlock Extent × Block Extent :=
  (parts.1.map Extent.unplaced, parts.2.map Extent.unplaced)

theorem partsView_inj {parts parts' : VarBlock Extent × Block Extent}
    (h : partsView parts = partsView parts') :
    parts.1.map Extent.unplaced = parts'.1.map Extent.unplaced ∧
      parts.2.map Extent.unplaced = parts'.2.map Extent.unplaced := by
  simpa [partsView] using h

theorem bodyParts_agree (hps : Congruent ends ps) (stop : Kind) :
    Agree ends partsView ps (bodyParts ends.1 stop (ps.map Prod.fst))
      (bodyParts ends.2 stop (ps.map Prod.snd)) := by
  unfold bodyParts
  refine (varDecls_agree ps hps).bind (List.suffix_refl ps) ?_
  intro rest₁ decls decls' _ _ hrest₁ hdecls
  have hcongr := hps.suffix hrest₁
  refine (statements_agree stop rest₁ hcongr).bind hrest₁ ?_
  intro rest₂ stmts stmts' _ _ hrest₂ hstmts
  refine .ok hrest₂ ?_
  simp only [partsView, VarBlock.map, Block.map, hps.unplaced_between, hcongr.unplaced_between,
    hdecls, hstmts]

theorem body_agree (hps : Congruent ends ps) :
    Agree ends (Body.map Extent.unplaced) ps (body ends.1 (ps.map Prod.fst))
      (body ends.2 (ps.map Prod.snd)) := by
  unfold body
  refine (expect_agree hps .leftBrace).bind (List.suffix_refl ps) ?_
  intro rest₁ _ _ _ _ hrest₁ _
  refine (bodyParts_agree (hps.suffix hrest₁) .rightBrace).bind hrest₁ ?_
  intro rest₂ parts parts' _ _ hrest₂ hparts
  refine (expect_agree (hps.suffix hrest₂) .rightBrace).bind hrest₂ ?_
  intro rest₃ _ _ _ _ hrest₃ _
  obtain ⟨hvars, hblock⟩ := partsView_inj hparts
  exact .ok hrest₃ (by rw [Body.map, Body.map, hps.unplaced_between, hvars, hblock])

theorem param_agree (hps : Congruent ends ps) :
    Agree ends (Param.map Extent.unplaced) ps (param ends.1 (ps.map Prod.fst))
      (param ends.2 (ps.map Prod.snd)) := by
  unfold param
  refine (expect_agree hps .ident).bind (List.suffix_refl ps) ?_
  intro rest₁ name name' _ _ hrest₁ hname
  refine (expect_agree (hps.suffix hrest₁) .colon).bind hrest₁ ?_
  intro rest₂ _ _ _ _ hrest₂ _
  refine (expect_agree (hps.suffix hrest₂) .type).bind hrest₂ ?_
  intro rest₃ type type' _ _ hrest₃ htype
  refine .ok hrest₃ ?_
  simp only [Param.map, hps.unplaced_between, Token.lexeme_of_bare hname,
    Token.lexeme_of_bare htype]

theorem paramList_agree (ps : List (Token × Token)) (hps : Congruent ends ps) :
    Agree ends (List.map (Param.map Extent.unplaced)) ps (paramList ends.1 (ps.map Prod.fst))
      (paramList ends.2 (ps.map Prod.snd)) := by
  rw [paramList, paramList]
  refine (param_agree hps).bind (List.suffix_refl ps) ?_
  intro rest₁ first first' h₁ _ hrest₁ hfirst
  have hcongr := hps.suffix hrest₁
  refine .ite (by rw [hcongr.startsWith_eq]) (fun _ ↦ ?_) fun _ ↦ ?_
  · have hshorter : rest₁.length - 1 < ps.length := by simp at h₁; omega
    have htail : rest₁.tail <:+ ps := (List.tail_suffix rest₁).trans hrest₁
    have hothers := paramList_agree rest₁.tail (hps.suffix htail)
    rw [List.map_tail, List.map_tail] at hothers
    refine hothers.bind htail ?_
    intro rest₂ others others' _ _ hrest₂ hothers
    exact .ok hrest₂ (by rw [List.map_cons, List.map_cons, hfirst, hothers])
  · refine (expect_agree hcongr .rightParen).bind hrest₁ ?_
    intro rest₂ _ _ _ _ hrest₂ _
    exact .ok hrest₂ (by rw [List.map_singleton, List.map_singleton, hfirst])
termination_by ps.length

theorem params_agree (hps : Congruent ends ps) :
    Agree ends (List.map (Param.map Extent.unplaced)) ps (params ends.1 (ps.map Prod.fst))
      (params ends.2 (ps.map Prod.snd)) := by
  match ps, hps with
  | [], hps => exact paramList_agree [] hps
  | p :: more, hps =>
    refine .ite (by rw [hps.kind_eq]) (fun _ ↦ ?_) fun _ ↦ paramList_agree (p :: more) hps
    exact .ok (List.suffix_cons p more) rfl

theorem returnType_agree (hps : Congruent ends ps) :
    Agree ends id ps (returnType ends.1 (ps.map Prod.fst))
      (returnType ends.2 (ps.map Prod.snd)) := by
  match ps, hps with
  | [], hps => exact .ok (List.suffix_refl []) rfl
  | p :: more, hps =>
    refine .ite (by rw [hps.kind_eq]) (fun _ ↦ ?_) fun _ ↦ .ok (List.suffix_refl (p :: more)) rfl
    refine (expect_agree hps.tail .type).bind (List.suffix_cons p more) ?_
    intro rest type type' _ _ hrest htype
    exact .ok hrest (Token.lexeme_of_bare htype)

theorem funcDef_agree (hps : Congruent ends ps) :
    Agree ends (FuncDef.map Extent.unplaced) ps (funcDef ends.1 (ps.map Prod.fst))
      (funcDef ends.2 (ps.map Prod.snd)) := by
  unfold funcDef
  refine (expect_agree hps .funcWord).bind (List.suffix_refl ps) ?_
  intro rest₁ _ _ _ _ hrest₁ _
  refine (expect_agree (hps.suffix hrest₁) .ident).bind hrest₁ ?_
  intro rest₂ name name' _ _ hrest₂ hname
  refine (expect_agree (hps.suffix hrest₂) .leftParen).bind hrest₂ ?_
  intro rest₃ _ _ _ _ hrest₃ _
  refine (params_agree (hps.suffix hrest₃)).bind hrest₃ ?_
  intro rest₄ params params' _ _ hrest₄ hparams
  refine (returnType_agree (hps.suffix hrest₄)).bind hrest₄ ?_
  intro rest₅ returns returns' _ _ hrest₅ hreturns
  refine (body_agree (hps.suffix hrest₅)).bind hrest₅ ?_
  intro rest₆ body body' _ _ hrest₆ hbody
  refine .ok hrest₆ ?_
  simp only [id_eq] at hreturns
  simp only [FuncDef.map, hps.unplaced_between, Token.lexeme_of_bare hname, hparams, hreturns,
    hbody]

theorem funcDefs_agree (ps : List (Token × Token)) (hps : Congruent ends ps) :
    Agree ends (List.map (FuncDef.map Extent.unplaced)) ps (funcDefs ends.1 (ps.map Prod.fst))
      (funcDefs ends.2 (ps.map Prod.snd)) := by
  rw [funcDefs, funcDefs]
  refine .ite (by rw [hps.startsWith_eq]) (fun _ ↦ ?_) fun _ ↦ .ok (List.suffix_refl ps) rfl
  refine (funcDef_agree hps).bind (List.suffix_refl ps) ?_
  intro rest₁ first first' h₁ _ hrest₁ hfirst
  have hshorter : rest₁.length < ps.length := by simpa using h₁
  refine (funcDefs_agree rest₁ (hps.suffix hrest₁)).bind hrest₁ ?_
  intro rest₂ others others' _ _ hrest₂ hothers
  exact .ok hrest₂ (by rw [List.map_cons, List.map_cons, hfirst, hothers])
termination_by ps.length

/-- Whether the two sides of a row came to the same, with nothing to be read after it. -/
inductive AgreeWhole (ends : Token × Token) (view : α → γ) (ps : List (Token × Token)) :
    Except SyntaxError α → Except SyntaxError α → Prop
  | ok {value value' : α} : view value = view value' →
      AgreeWhole ends view ps (.ok value) (.ok value')
  | error {rest : List (Token × Token)} {fault : SyntaxFault} : rest <:+ ps →
      AgreeWhole ends view ps (.error ⟨(rest.map Prod.fst).headD ends.1, fault⟩)
        (.error ⟨(rest.map Prod.snd).headD ends.2, fault⟩)

theorem Agree.whole {r : Result α m} {r' : Result α m'} (h : Agree ends view qs r r')
    (hqs : qs <:+ ps) {next : Parsed α m → Except SyntaxError β}
    {next' : Parsed α m' → Except SyntaxError β}
    (hnext : ∀ (rest : List (Token × Token)) (value value' : α) h h', rest <:+ ps →
      view value = view value' → AgreeWhole ends view' ps (next ⟨value, rest.map Prod.fst, h⟩)
        (next' ⟨value', rest.map Prod.snd, h'⟩)) :
    AgreeWhole ends view' ps (r >>= next) (r' >>= next') := by
  cases h with
  | ok hrest hvalue => exact hnext _ _ _ _ _ (hrest.trans hqs) hvalue
  | error hrest => exact .error (hrest.trans hqs)

/-- A program is read alike from two rows that are congruent. -/
theorem script_agree (hps : Congruent ends ps) :
    AgreeWhole ends (Script.map Extent.unplaced) ps (script ends.1 (ps.map Prod.fst))
      (script ends.2 (ps.map Prod.snd)) := by
  unfold script
  refine (funcDefs_agree ps hps).whole (List.suffix_refl ps) ?_
  intro rest₁ funcs funcs' _ _ hrest₁ hfuncs
  have hcongr := hps.suffix hrest₁
  refine (bodyParts_agree hcongr .eof).whole hrest₁ ?_
  intro rest₂ parts parts' _ _ _ hparts
  obtain ⟨hvars, hblock⟩ := partsView_inj hparts
  refine .ok ?_
  simp only [Script.map, Option.map_some, Body.map, hps.unplaced_between, hcongr.unplaced_between,
    hfuncs, hvars, hblock]

end Parser

end ScriptAnalysis
