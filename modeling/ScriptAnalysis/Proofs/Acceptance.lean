import ScriptAnalysis.Proofs.Grammar

/-!
# Programs of the grammar are read

What a rule of the grammar derives, reading takes in as that tree and leaves what follows, wherever
the construct ends. A construct ends where the next token cannot be taken for a further part of it.
-/

namespace ScriptAnalysis

namespace Parser

@[simp] theorem startsWith_nil (kind : Kind) : startsWith kind [] = false := rfl

@[simp] theorem startsWith_cons (kind : Kind) (t : Token) (more : List Token) :
    startsWith kind (t :: more) = decide (t.kind = kind) := rfl

theorem startsWith_eq_false {kind : Kind} {ts : List Token} (h : ∀ t ∈ ts.head?, t.kind ≠ kind) :
    startsWith kind ts = false := by
  cases ts with
  | nil => rfl
  | cons t more => simpa using h t (by simp)

/-- A reading answers `value` and leaves the tokens `rest`. -/
def Yields {α : Type} {bound : Nat} (r : Result α bound) (value : α) (rest : List Token) : Prop :=
  ∃ h, r = .ok ⟨value, rest, h⟩

theorem Yields.ok {α : Type} {bound : Nat} (p : Parsed α bound) :
    Yields (.ok p) p.value p.rest :=
  ⟨p.shorter, rfl⟩

theorem Yields.bind {α β : Type} {bound bound' : Nat} {r : Result α bound}
    {f : Parsed α bound → Result β bound'} {value : α} {result : β} {mid rest : List Token}
    (hr : Yields r value mid) (hf : ∀ h, Yields (f ⟨value, mid, h⟩) result rest) :
    Yields (r >>= f) result rest := by
  obtain ⟨h, rfl⟩ := hr
  exact hf h

theorem yields_expect {endMark : Token} {kind : Kind} {t : Token} {rest : List Token}
    (ht : t.kind = kind) : Yields (expect endMark kind (t :: rest)) t rest := by
  rw [expect, if_pos ht]
  exact .ok _

end Parser

namespace Grammar

open ScriptAnalysis.Parser

/-! ## Expressions -/

/-- Whether an expression of a level ends where `rest` follows it: what comes next neither joins it
to another operand nor makes a call of the name at its end. -/
structure Ends (level : Nat) (used rest : List Token) : Prop where
  operator : ∀ t ∈ rest.head?, ∀ op, Operator.ofKind? t.kind = some op → level < op.level
  name : ∀ t ∈ used.getLast?, t.kind = .ident → startsWith .leftParen rest = false

theorem Ends.lower {level level' : Nat} {used rest : List Token} (h : Ends level used rest)
    (hle : level' ≤ level) : Ends level' used rest :=
  ⟨fun t ht op hop ↦ Nat.lt_of_le_of_lt hle (h.operator t ht op hop), h.name⟩

/-- Of what was read only the last token matters. -/
theorem Ends.suffix_iff {level : Nat} {used all rest : List Token} (hs : used <:+ all)
    (hused : used ≠ []) : Ends level used rest ↔ Ends level all rest := by
  have hlast : all.getLast? = used.getLast? := by
    obtain ⟨before, rfl⟩ := hs
    rw [List.getLast?_append, List.getLast?_eq_some_getLast hused, Option.some_or]
  constructor
  · intro h
    exact ⟨h.operator, hlast ▸ h.name⟩
  · intro h
    exact ⟨h.operator, hlast ▸ h.name⟩

theorem Ends.of_kind (level : Nat) {kind : Kind} {used rest : List Token} {t : Token}
    (ht : t.kind = kind) (hkind : Operator.ofKind? kind = none ∧ kind ≠ .leftParen) :
    Ends level used (t :: rest) :=
  ⟨by simp [ht, hkind.1], by simp [ht, hkind.2]⟩

theorem Ends.of_operator {level : Nat} {used rest : List Token} {t : Token} {op : Operator}
    (hop : Operator.ofKind? t.kind = some op) (hlevel : level < op.level) :
    Ends level used (t :: rest) where
  operator := by simp_all
  name := by
    have hparen : t.kind ≠ .leftParen := by
      intro h
      simp [h, Operator.ofKind?] at hop
    simp [hparen]

variable {endMark : Token}

/-- Reading has taken in `ts` as `e` and stands before `rest`, where more operands may be joined. -/
def Reaches (endMark : Token) (level : Nat) (ts : List Token) (e : Expr Extent)
    (rest : List Token) : Prop :=
  ∀ all, all = ts ++ rest →
    match level with
    | 0 => Yields (unary endMark all) e rest
    | level + 1 => ∃ h, binary endMark (level + 1) all = chain endMark level all e rest h

theorem yields_chain {level : Nat} {used start rest : List Token} {e : Expr Extent}
    (hend : Ends (level + 1) used rest) (h : rest.length < start.length) :
    Yields (chain endMark level start e rest h) e rest := by
  cases rest with
  | nil =>
    rw [chain]
    exact .ok _
  | cons t more =>
    rw [chain]
    cases hop : Operator.ofKind? t.kind with
    | none => exact .ok _
    | some op =>
      have hlevel := hend.operator t (by simp) op hop
      simp only [show op.level ≠ level + 1 by omega, if_false]
      exact .ok _

theorem Reaches.read {level : Nat} {ts rest all : List Token} {e : Expr Extent}
    (h : Reaches endMark level ts e rest) (hend : Ends level ts rest) (hall : all = ts ++ rest) :
    Yields (binary endMark level all) e rest := by
  cases level with
  | zero =>
    rw [binary]
    exact h all hall
  | succ level =>
    obtain ⟨hr, hchain⟩ := h all hall
    rw [hchain]
    exact yields_chain hend hr

mutual

-- The grammar joins operands by a rule that is recursive on the left, so the statement is about
-- how far reading has come and not about the whole of what it reads.
theorem Expression.reaches {level : Nat} {ts rest : List Token} {e : Expr Extent} :
    Expression level ts e → Ends (level - 1) ts rest → Reaches endMark level ts e rest
  | .unary h, hend => fun all hall ↦ h.read hend hall
  | .operand h, hend => by
    intro all hall
    obtain ⟨hr, hread⟩ := (h.reaches (hend.lower (Nat.sub_le _ _))).read hend hall
    exact ⟨hr, by rw [binary, hread]; rfl⟩
  | @Expression.operation level ls us t op left right hl hop hlevel hr, hend => by
    intro all hall
    have hus : Ends level us rest := (Ends.suffix_iff ⟨ls ++ [t], by simp⟩ hr.ne_nil).2 hend
    have hls : Ends level ls (t :: (us ++ rest)) := .of_operator hop (by omega)
    obtain ⟨h₁, hleft⟩ := hl.reaches hls all (by simp [hall])
    obtain ⟨h₂, hright⟩ := (hr.reaches (hus.lower (Nat.sub_le _ _))).read hus rfl
    refine ⟨by simp [hall]; omega, ?_⟩
    rw [hleft, chain]
    simp only [hop, if_pos hlevel, hright, ← Extent.between_eq_spanning endMark hall]
    rfl

theorem Unary.read {ts rest all : List Token} {e : Expr Extent} :
    Unary ts e → Ends 0 ts rest → all = ts ++ rest → Yields (unary endMark all) e rest
  | @Unary.negate t ts e ht h, hend, hall => by
    have hts : Ends 0 ts rest := (Ends.suffix_iff ⟨[t], rfl⟩ h.ne_nil).2 hend
    rw [← Extent.between_eq_spanning endMark hall]
    subst hall
    rw [List.cons_append, unary, if_pos ht]
    exact (h.read hts rfl).bind fun _ ↦ .ok _
  | .primary h, hend, hall => by
    have hread := h.read hend hall
    obtain ⟨t, more, rfl, ht, -⟩ := h.starts
    subst hall
    rw [List.cons_append] at hread ⊢
    rw [unary, if_neg ht]
    exact hread

theorem Primary.read {ts rest all : List Token} {e : Expr Extent} :
    Primary ts e → Ends 0 ts rest → all = ts ++ rest → Yields (primary endMark all) e rest
  | .int ht, _, hall | .string ht, _, hall | .true ht, _, hall | .false ht, _, hall => by
    rw [← Extent.between_eq_spanning endMark hall]
    subst hall
    rw [List.singleton_append, primary]
    simp only [ht]
    exact .ok _
  | @Primary.ident t ht, hend, hall => by
    have hcall : startsCall (t :: rest) = false := by
      simp [startsCall, ht, hend.name t (by simp) ht]
    rw [← Extent.between_eq_spanning endMark hall]
    subst hall
    rw [List.singleton_append, primary]
    simp only [ht, hcall]
    exact .ok _
  | .call h, _, hall => by
    have hread := h.read hall
    obtain ⟨hn, hl, -⟩ := h
    subst hall
    rw [List.cons_append, List.cons_append] at hread ⊢
    rw [primary]
    simp only [startsCall, startsWith_cons, hn, hl, decide_true, Bool.and_self, if_true]
    exact hread.bind fun _ ↦ .ok _
  | @Primary.parens l r ts e hl h hr, _, hall => by
    have hend : Ends 3 ts (r :: rest) := .of_kind 3 hr (by decide)
    rw [← Extent.between_eq_spanning endMark hall]
    subst hall
    rw [List.cons_append, primary]
    simp only [hl]
    refine ((h.reaches (hend.lower (Nat.sub_le _ _))).read hend (by simp)).bind fun _ ↦ ?_
    exact (yields_expect hr).bind fun _ ↦ .ok _

theorem Call.read {ts rest all : List Token} {note : Extent} {callee : String}
    {args : List (Expr Extent)} :
    Call ts note callee args → all = ts ++ rest →
      Yields (call endMark all) (note, callee, args) rest
  | .mk hn hl h, hall => by
    rw [← Extent.between_eq_spanning endMark hall]
    subst hall
    rw [List.cons_append, List.cons_append, call]
    refine (yields_expect hn).bind fun _ ↦ ?_
    refine (yields_expect hl).bind fun _ ↦ ?_
    exact (h.read rfl).bind fun _ ↦ .ok _

theorem Arguments.read {ts rest all : List Token} {args : List (Expr Extent)} :
    Arguments ts args → all = ts ++ rest → Yields (arguments endMark all) args rest
  | .none hr, hall => by
    subst hall
    rw [List.singleton_append, arguments, if_pos hr]
    exact .ok _
  | .some h, hall => by
    have hread := h.read hall
    obtain ⟨t, more, rfl, ht⟩ := h.starts
    subst hall
    rw [List.cons_append] at hread ⊢
    rw [arguments, if_neg ht]
    exact hread

theorem ArgumentList.read {ts rest all : List Token} {args : List (Expr Extent)} :
    ArgumentList ts args → all = ts ++ rest → Yields (argumentList endMark all) args rest
  | @ArgumentList.last ts e r h hr, hall => by
    have hend : Ends 3 ts (r :: rest) := .of_kind 3 hr (by decide)
    rw [argumentList]
    refine ((h.reaches (hend.lower (Nat.sub_le _ _))).read hend (by simp [hall])).bind fun _ ↦ ?_
    simp only [startsWith_cons, hr, reduceCtorEq, decide_false]
    exact (yields_expect hr).bind fun _ ↦ .ok _
  | @ArgumentList.more ts us e args comma h hc hs, hall => by
    have hend : Ends 3 ts (comma :: (us ++ rest)) := .of_kind 3 hc (by decide)
    rw [argumentList]
    refine ((h.reaches (hend.lower (Nat.sub_le _ _))).read hend (by simp [hall])).bind fun _ ↦ ?_
    simp only [startsWith_cons, hc, decide_true, if_true, List.tail_cons]
    exact (hs.read rfl).bind fun _ ↦ .ok _

end

theorem Expression.read {level : Nat} {ts rest all : List Token} {e : Expr Extent}
    (h : Expression level ts e) (hend : Ends level ts rest) (hall : all = ts ++ rest) :
    Yields (binary endMark level all) e rest :=
  (h.reaches (hend.lower (Nat.sub_le _ _))).read hend hall

/-! ## Statements -/

/-- Whether a statement ends where `rest` follows it. -/
def StatementEnds (s : Stmt Extent) (used rest : List Token) : Prop :=
  match s with
  | .assign _ _ _ | .print _ _ | .ret _ (some _) => Ends 3 used rest
  | .branch _ _ _ none => startsWith .elseWord rest = false
  | _ => True

/-- Whether a token of this kind continues no expression, statement or declaration. -/
def Separates (kind : Kind) : Prop :=
  Operator.ofKind? kind = none ∧ kind ∉ [Kind.leftParen, .elseWord, .assign]

instance (kind : Kind) : Decidable (Separates kind) := inferInstanceAs (Decidable (_ ∧ _))

theorem startsWith_of_separates {kind : Kind} {rest : List Token}
    (hkind : kind ∈ [Kind.leftParen, .elseWord, .assign])
    (h : ∀ t ∈ rest.head?, Separates t.kind) : startsWith kind rest = false :=
  startsWith_eq_false fun t ht heq ↦ (h t ht).2 (heq ▸ hkind)

theorem Ends.of_separates {level : Nat} {used rest : List Token}
    (h : ∀ t ∈ rest.head?, Separates t.kind) : Ends level used rest where
  operator t ht op hop := by simp [(h t ht).1] at hop
  name _ _ _ := startsWith_of_separates (by decide) h

theorem StatementEnds.of_separates {s : Stmt Extent} {used rest : List Token}
    (h : ∀ t ∈ rest.head?, Separates t.kind) : StatementEnds s used rest := by
  have hends : Ends 3 used rest := .of_separates h
  have helse : startsWith .elseWord rest = false := startsWith_of_separates (by decide) h
  unfold StatementEnds
  split
  · exact hends
  · exact hends
  · exact hends
  · exact helse
  · trivial

/-- Whether a token of this kind begins a statement. -/
def startsStatement : Kind → Bool
  | .ident | .whileWord | .ifWord | .printWord | .returnWord => true
  | _ => false

theorem separates_of_startsStatement {kind : Kind} :
    startsStatement kind = true → Separates kind := by
  cases kind <;> decide

theorem Statement.starts {ts : List Token} {next : Token} {s : Stmt Extent}
    (h : Statement ts next s) : ∃ t more, ts = t :: more ∧ startsStatement t.kind = true := by
  cases h with
  | call h =>
    obtain ⟨hn, -, -⟩ := h
    exact ⟨_, _, rfl, by rw [hn]; rfl⟩
  | assign hk | loop hk | branch hk | branchElse hk | print hk | ret hk | retValue hk =>
    exact ⟨_, _, rfl, by rw [hk]; rfl⟩

/-- What follows a statement in a list of statements lets it end. -/
theorem Statements.separates {ts rest : List Token} {next : Token} {ss : List (Stmt Extent)}
    (h : Statements ts next ss) (hrest : ∀ t ∈ rest.head?, Separates t.kind) :
    ∀ t ∈ (ts ++ rest).head?, Separates t.kind := by
  cases h with
  | nil => exact hrest
  | cons h hs =>
    obtain ⟨t, more, rfl, ht⟩ := h.starts
    simpa using separates_of_startsStatement ht

/-- A condition ends at the block behind it. -/
theorem BraceBlock.ends {level : Nat} {used us rest : List Token} {b : Block Extent}
    (h : BraceBlock us b) : Ends level used (us ++ rest) := by
  obtain ⟨hl, -, -⟩ := h
  exact .of_kind level hl (by decide)

theorem startsValue_eq_false {word : Token} {rest : List Token}
    (h : ¬ TakesValue word (rest.headD endMark)) : startsValue word rest = false := by
  cases rest with
  | nil => rfl
  | cons t more =>
    rw [startsValue, List.head?_cons, Option.any_some]
    simpa [TakesValue] using h

mutual

theorem Statement.read {ts rest all : List Token} {next : Token} {s : Stmt Extent} :
    Statement ts next s → next = rest.headD endMark → StatementEnds s ts rest → all = ts ++ rest →
      Yields (statement endMark all) s rest
  | @Statement.assign _ name eq ts e hn heq h, _, hend, hall => by
    have hcall : startsCall (name :: eq :: (ts ++ rest)) = false := by simp [startsCall, heq]
    have hts : Ends 3 ts rest := (Ends.suffix_iff ⟨[name, eq], rfl⟩ h.ne_nil).2 hend
    rw [← Extent.between_eq_spanning endMark hall]
    subst hall
    rw [List.cons_append, List.cons_append, statement]
    simp only [hn, hcall]
    refine (yields_expect heq).bind fun _ ↦ ?_
    exact (h.read hts rfl).bind fun _ ↦ .ok _
  | .call h, _, _, hall => by
    have hread : Yields (Parser.call endMark all) _ rest := h.read hall
    obtain ⟨hn, hl, -⟩ := h
    rw [← Extent.between_eq_spanning endMark hall] at hread ⊢
    subst hall
    rw [List.cons_append, List.cons_append] at hread ⊢
    rw [statement]
    simp only [startsCall, startsWith_cons, hn, hl, decide_true, Bool.and_self, if_true]
    exact hread.bind fun _ ↦ .ok _
  | @Statement.loop _ word ts us e body hw h hb, _, _, hall => by
    have hend : Ends 3 ts (us ++ rest) := hb.ends
    rw [← Extent.between_eq_spanning endMark hall]
    subst hall
    rw [List.cons_append, List.append_assoc, statement]
    simp only [hw]
    refine (h.read hend rfl).bind fun _ ↦ ?_
    exact (hb.read rfl).bind fun _ ↦ .ok _
  | @Statement.branch _ word ts us e whenTrue hw h ht, _, hend, hall => by
    have hcond : Ends 3 ts (us ++ rest) := ht.ends
    have helse : startsWith .elseWord rest = false := hend
    rw [← Extent.between_eq_spanning endMark hall]
    subst hall
    rw [List.cons_append, List.append_assoc, statement]
    simp only [hw]
    refine (h.read hcond rfl).bind fun _ ↦ ?_
    refine (ht.read rfl).bind fun _ ↦ ?_
    simp only [helse]
    exact .ok _
  | @Statement.branchElse _ word other ts us vs e whenTrue whenFalse hw h ht ho hf, _, _, hall => by
    have hcond : Ends 3 ts (us ++ other :: (vs ++ rest)) := ht.ends
    rw [← Extent.between_eq_spanning endMark hall]
    subst hall
    rw [List.cons_append, List.append_assoc, List.append_assoc, List.cons_append, statement]
    simp only [hw]
    refine (h.read hcond rfl).bind fun _ ↦ ?_
    refine (ht.read rfl).bind fun _ ↦ ?_
    simp only [startsWith_cons, ho, decide_true, if_true, List.tail_cons]
    exact (hf.read rfl).bind fun _ ↦ .ok _
  | @Statement.print _ word ts e hw h, _, hend, hall => by
    have hts := (Ends.suffix_iff ⟨[word], rfl⟩ h.ne_nil).2 hend
    rw [← Extent.between_eq_spanning endMark hall]
    subst hall
    rw [List.cons_append, statement]
    simp only [hw]
    exact (h.read hts rfl).bind fun _ ↦ .ok _
  | .ret hw hn, hnext, _, hall => by
    subst hnext
    rw [← Extent.between_eq_spanning endMark hall]
    subst hall
    rw [List.singleton_append, statement]
    simp only [hw, startsValue_eq_false hn]
    exact .ok _
  | @Statement.retValue _ word first ts e hw hv h, _, hend, hall => by
    have hts := (Ends.suffix_iff ⟨[word], rfl⟩ h.ne_nil).2 hend
    have hvalue : startsValue word (first :: ts ++ rest) = true := by
      simp [startsValue, hv.1, hv.2]
    rw [← Extent.between_eq_spanning endMark hall]
    subst hall
    rw [List.cons_append, statement]
    simp only [hw, hvalue, if_true]
    exact (h.read hts rfl).bind fun _ ↦ .ok _

theorem Statements.read {ts rest all : List Token} {next : Token} {ss : List (Stmt Extent)}
    {stop : Kind} : Statements ts next ss → next = rest.headD endMark →
      (∀ t ∈ rest.head?, t.kind = stop) → (stop = .rightBrace ∨ stop = .eof) → all = ts ++ rest →
      Yields (statements endMark stop all) ss rest
  | .nil, _, hrest, _, hall => by
    rw [List.nil_append] at hall
    subst hall
    cases all with
    | nil =>
      rw [statements]
      exact .ok _
    | cons t more =>
      rw [statements, if_pos (hrest t (by simp))]
      exact .ok _
  | @Statements.cons _ ts us s ss h hs, hnext, hrest, hstop, hall => by
    have hseparates : ∀ t ∈ (us ++ rest).head?, Separates t.kind := by
      apply hs.separates
      intro t ht
      rw [hrest t ht]
      rcases hstop with rfl | rfl <;> decide
    have hnext' : us.headD next = (us ++ rest).headD endMark := by cases us <;> simp [hnext]
    have hread := h.read hnext' (.of_separates hseparates) rfl
    obtain ⟨t, more, rfl, ht⟩ := h.starts
    subst hall
    rw [List.cons_append] at hread
    rw [List.append_assoc, List.cons_append, statements, if_neg, if_neg]
    · refine hread.bind fun _ ↦ ?_
      exact (hs.read hnext hrest hstop rfl).bind fun _ ↦ .ok _
    · intro hvar
      simp [hvar, startsStatement] at ht
    · rintro rfl
      rcases hstop with hstop | hstop <;> simp [hstop, startsStatement] at ht

theorem BraceBlock.read {ts rest all : List Token} {b : Block Extent} :
    BraceBlock ts b → all = ts ++ rest → Yields (braceBlock endMark all) b rest
  | @BraceBlock.mk l r ts ss hl h hr, hall => by
    rw [← Extent.between_eq_spanning endMark hall]
    subst hall
    have hread : Yields (statements endMark .rightBrace (ts ++ [r] ++ rest)) ss (r :: rest) :=
      h.read rfl (by simp [hr]) (.inl rfl) (by simp)
    rw [List.cons_append, braceBlock]
    refine (yields_expect hl).bind fun _ ↦ ?_
    refine hread.bind fun _ ↦ ?_
    exact (yields_expect hr).bind fun _ ↦ .ok _

end

/-! ## Declarations and definitions -/

/-- Whether a declaration ends where `rest` follows it. -/
def DeclarationEnds (d : VarDecl Extent) (used rest : List Token) : Prop :=
  match d.init with
  | some _ => Ends 3 used rest
  | none => startsWith .assign rest = false

theorem DeclarationEnds.suffix_iff {d : VarDecl Extent} {used all rest : List Token}
    (hs : used <:+ all) (hused : used ≠ []) :
    DeclarationEnds d used rest ↔ DeclarationEnds d all rest := by
  unfold DeclarationEnds
  split
  · exact Ends.suffix_iff hs hused
  · rfl

theorem DeclarationEnds.of_separates {d : VarDecl Extent} {used rest : List Token}
    (h : ∀ t ∈ rest.head?, Separates t.kind) : DeclarationEnds d used rest := by
  unfold DeclarationEnds
  split
  · exact .of_separates h
  · exact startsWith_of_separates (by decide) h

theorem Declaration.starts {ts : List Token} {d : VarDecl Extent} (h : Declaration ts d) :
    ∃ t more, ts = t :: more ∧ t.kind = .varWord := by
  cases h with
  | plain hw | initial hw => exact ⟨_, _, rfl, hw⟩

theorem Declaration.read {ts rest all : List Token} {d : VarDecl Extent} (h : Declaration ts d)
    (hend : DeclarationEnds d ts rest) (hall : all = ts ++ rest) :
    Yields (varDecl endMark all) d rest := by
  cases h with
  | plain hw hn hc ht =>
    have hassign : startsWith .assign rest = false := hend
    rw [← Extent.between_eq_spanning endMark hall]
    subst hall
    simp only [List.cons_append, List.nil_append]
    rw [varDecl]
    refine (yields_expect hw).bind fun _ ↦ ?_
    refine (yields_expect hn).bind fun _ ↦ ?_
    refine (yields_expect hc).bind fun _ ↦ ?_
    refine (yields_expect ht).bind fun _ ↦ ?_
    simp only [hassign]
    exact .ok _
  | @initial word name colon type eq us e hw hn hc ht heq h =>
    have hus : Ends 3 us rest :=
      (Ends.suffix_iff ⟨[word, name, colon, type, eq], rfl⟩ h.ne_nil).2 hend
    rw [← Extent.between_eq_spanning endMark hall]
    subst hall
    simp only [List.cons_append]
    rw [varDecl]
    refine (yields_expect hw).bind fun _ ↦ ?_
    refine (yields_expect hn).bind fun _ ↦ ?_
    refine (yields_expect hc).bind fun _ ↦ ?_
    refine (yields_expect ht).bind fun _ ↦ ?_
    simp only [startsWith_cons, heq, decide_true, if_true, List.tail_cons]
    exact (h.read hus rfl).bind fun _ ↦ .ok _

theorem Declarations.read {ts rest all : List Token} {ds : List (VarDecl Extent)}
    (h : Declarations ts ds) (hend : ∀ d ∈ ds.getLast?, DeclarationEnds d ts rest)
    (hvar : startsWith .varWord rest = false) (hall : all = ts ++ rest) :
    Yields (varDecls endMark all) ds rest := by
  induction h generalizing all with
  | nil =>
    rw [List.nil_append] at hall
    subst hall
    rw [varDecls]
    simp only [hvar]
    exact .ok _
  | @cons ts us d ds h hs ih =>
    have hread : Yields (varDecl endMark all) d (us ++ rest) := by
      apply h.read _ (by simp [hall])
      cases hs with
      | nil => simpa using hend
      | cons h' hs' =>
        obtain ⟨t, more, rfl, ht⟩ := h'.starts
        apply DeclarationEnds.of_separates
        rintro _ ⟨⟩
        rw [ht]
        decide
    have hlast : ∀ d ∈ ds.getLast?, DeclarationEnds d us rest := by
      intro d' hd'
      have hus : us ≠ [] := by
        cases hs with
        | nil => simp at hd'
        | cons h' _ =>
          obtain ⟨t, more, rfl, -⟩ := h'.starts
          simp
      refine (DeclarationEnds.suffix_iff ⟨ts, rfl⟩ hus).2 (hend d' ?_)
      cases ds <;> simp_all
    have hstart : startsWith .varWord all = true := by
      obtain ⟨t, more, rfl, ht⟩ := h.starts
      simp [hall, ht]
    rw [varDecls]
    simp only [hstart, if_true]
    refine hread.bind fun _ ↦ ?_
    exact (ih hlast rfl).bind fun _ ↦ .ok _

theorem Parts.read {ts rest all : List Token} {next : Token} {vars : VarBlock Extent}
    {block : Block Extent} {stop : Kind} (h : Parts ts next vars block)
    (hnext : next = rest.headD endMark) (hrest : ∀ t ∈ rest.head?, t.kind = stop)
    (hstop : stop = .rightBrace ∨ stop = .eof) (hall : all = ts ++ rest) :
    Yields (bodyParts endMark stop all) (vars, block) rest := by
  cases h with
  | @mk _ ts us ds ss hd hs =>
    have hseparates : ∀ t ∈ (us ++ rest).head?, Separates t.kind := by
      apply hs.separates
      intro t ht
      rw [hrest t ht]
      rcases hstop with rfl | rfl <;> decide
    have hvar : startsWith .varWord (us ++ rest) = false := by
      cases hs with
      | nil =>
        apply startsWith_eq_false
        intro t ht
        rw [hrest t ht]
        rcases hstop with rfl | rfl <;> decide
      | cons h' _ =>
        obtain ⟨t, more, rfl, ht⟩ := h'.starts
        apply startsWith_eq_false
        rintro _ ⟨⟩ hkind
        simp [hkind, startsStatement] at ht
    have hdecls : Yields (varDecls endMark all) ds (us ++ rest) :=
      hd.read (fun _ _ ↦ .of_separates hseparates) hvar (by simp [hall])
    have hhead : (us ++ rest).headD endMark = us.headD next := by cases us <;> simp [hnext]
    rw [← hhead, hnext, ← Extent.between_append, ← Extent.between_append, ← List.append_assoc,
      ← hall]
    rw [bodyParts]
    refine hdecls.bind fun _ ↦ ?_
    exact (hs.read hnext hrest hstop rfl).bind fun _ ↦ .ok _

theorem FunctionBody.read {ts rest all : List Token} {b : Body Extent} (h : FunctionBody ts b)
    (hall : all = ts ++ rest) : Yields (body endMark all) b rest := by
  cases h with
  | @mk l r ts vars block hl h hr =>
    rw [← Extent.between_eq_spanning endMark hall]
    subst hall
    have hread : Yields (bodyParts endMark .rightBrace (ts ++ [r] ++ rest)) (vars, block)
        (r :: rest) :=
      h.read rfl (by simp [hr]) (.inl rfl) (by simp)
    rw [List.cons_append, body]
    refine (yields_expect hl).bind fun _ ↦ ?_
    refine hread.bind fun _ ↦ ?_
    exact (yields_expect hr).bind fun _ ↦ .ok _

theorem Parameter.read {ts rest all : List Token} {p : Param Extent} (h : Parameter ts p)
    (hall : all = ts ++ rest) : Yields (param endMark all) p rest := by
  cases h with
  | mk hn hc ht =>
    rw [← Extent.between_eq_spanning endMark hall]
    subst hall
    simp only [List.cons_append, List.nil_append]
    rw [param]
    refine (yields_expect hn).bind fun _ ↦ ?_
    refine (yields_expect hc).bind fun _ ↦ ?_
    exact (yields_expect ht).bind fun _ ↦ .ok _

theorem ParameterList.read {ts rest all : List Token} {ps : List (Param Extent)}
    (h : ParameterList ts ps) (hall : all = ts ++ rest) :
    Yields (paramList endMark all) ps rest := by
  induction h generalizing all with
  | @last ts p r h hr =>
    have hread : Yields (param endMark all) p (r :: rest) := h.read (by simp [hall])
    rw [paramList]
    refine hread.bind fun _ ↦ ?_
    simp only [startsWith_cons, hr, reduceCtorEq, decide_false]
    exact (yields_expect hr).bind fun _ ↦ .ok _
  | @more ts us p ps comma h hc hs ih =>
    have hread : Yields (param endMark all) p (comma :: (us ++ rest)) := h.read (by simp [hall])
    rw [paramList]
    refine hread.bind fun _ ↦ ?_
    simp only [startsWith_cons, hc, decide_true, if_true, List.tail_cons]
    exact (ih rfl).bind fun _ ↦ .ok _

theorem ParameterList.starts {ts : List Token} {ps : List (Param Extent)}
    (h : ParameterList ts ps) :
    ∃ t more, ts = t :: more ∧ t.kind ≠ .rightParen := by
  cases h with
  | last h _ | more h _ _ =>
    obtain ⟨hn, -, -⟩ := h
    exact ⟨_, _, rfl, by simp [hn]⟩

theorem Parameters.read {ts rest all : List Token} {ps : List (Param Extent)}
    (h : Parameters ts ps) (hall : all = ts ++ rest) : Yields (params endMark all) ps rest := by
  cases h with
  | none hr =>
    subst hall
    rw [List.singleton_append, params, if_pos hr]
    exact .ok _
  | some h =>
    have hread : Yields (paramList endMark all) ps rest := h.read hall
    obtain ⟨t, more, rfl, ht⟩ := h.starts
    subst hall
    rw [List.cons_append] at hread ⊢
    rw [params, if_neg ht]
    exact hread

theorem ReturnType.read {ts rest all : List Token} {returns : String} (h : ReturnType ts returns)
    (hcolon : ts = [] → startsWith .colon rest = false) (hall : all = ts ++ rest) :
    Yields (returnType endMark all) returns rest := by
  cases h with
  | none =>
    rw [List.nil_append] at hall
    subst hall
    cases all with
    | nil => exact .ok _
    | cons t more =>
      rw [returnType, if_neg (by simpa using hcolon rfl)]
      exact .ok _
  | some hc ht =>
    subst hall
    simp only [List.cons_append, List.nil_append]
    rw [returnType, if_pos hc]
    exact (yields_expect ht).bind fun _ ↦ .ok _

theorem Function.read {ts rest all : List Token} {f : FuncDef Extent} (h : Function ts f)
    (hall : all = ts ++ rest) : Yields (funcDef endMark all) f rest := by
  cases h with
  | @mk word name l ts us vs ps returns b hw hn hl hp hr hb =>
    have hcolon : startsWith .colon (vs ++ rest) = false := by
      obtain ⟨hbrace, -, -⟩ := hb
      simp [hbrace]
    rw [← Extent.between_eq_spanning endMark hall]
    subst hall
    have hparams : Yields (params endMark (ts ++ us ++ vs ++ rest)) ps (us ++ (vs ++ rest)) :=
      hp.read (by simp)
    simp only [List.cons_append]
    rw [funcDef]
    refine (yields_expect hw).bind fun _ ↦ ?_
    refine (yields_expect hn).bind fun _ ↦ ?_
    refine (yields_expect hl).bind fun _ ↦ ?_
    refine hparams.bind fun _ ↦ ?_
    refine (hr.read (fun _ ↦ hcolon) rfl).bind fun _ ↦ ?_
    exact (hb.read rfl).bind fun _ ↦ .ok _

theorem Functions.read {ts rest all : List Token} {fs : List (FuncDef Extent)}
    (h : Functions ts fs) (hfunc : startsWith .funcWord rest = false) (hall : all = ts ++ rest) :
    Yields (funcDefs endMark all) fs rest := by
  induction h generalizing all with
  | nil =>
    rw [List.nil_append] at hall
    subst hall
    rw [funcDefs]
    simp only [hfunc]
    exact .ok _
  | @cons ts us f fs h hs ih =>
    have hread : Yields (funcDef endMark all) f (us ++ rest) := h.read (by simp [hall])
    have hstart : startsWith .funcWord all = true := by
      obtain ⟨hw, -, -, -, -, -⟩ := h
      simp [hall, hw]
    rw [funcDefs]
    simp only [hstart, if_true]
    refine hread.bind fun _ ↦ ?_
    exact (ih rfl).bind fun _ ↦ .ok _

theorem Parts.startsWith_funcWord {ts : List Token} {next : Token} {vars : VarBlock Extent}
    {block : Block Extent} (h : Parts ts next vars block) : startsWith .funcWord ts = false := by
  obtain ⟨hd, hs⟩ := h
  cases hd with
  | nil =>
    cases hs with
    | nil => rfl
    | cons h _ =>
      obtain ⟨t, more, rfl, ht⟩ := h.starts
      apply startsWith_eq_false
      rintro _ ⟨⟩ hkind
      simp [hkind, startsStatement] at ht
  | cons h _ =>
    obtain ⟨t, more, rfl, ht⟩ := h.starts
    simp [ht]

theorem Program.read {all : List Token} {s : Script Extent} (h : Program all s) :
    ∃ ts stop, all = ts ++ [stop] ∧ stop.kind = .eof ∧ script stop ts = .ok s := by
  cases h with
  | @mk ts us stop fs vars block hf hm hstop =>
    refine ⟨ts ++ us, stop, rfl, hstop, ?_⟩
    obtain ⟨h₁, hfuncs⟩ : Yields (funcDefs stop (ts ++ us)) fs us :=
      hf.read hm.startsWith_funcWord rfl
    obtain ⟨h₂, hparts⟩ : Yields (bodyParts stop .eof us) (vars, block) [] :=
      hm.read rfl (by simp) (.inr rfl) (by simp)
    have hnote : Extent.between stop us [] = .ofTokens stop us := by
      simpa using Extent.between_append stop us []
    have hnote' : Extent.between stop (ts ++ us) [] = .ofTokens stop (ts ++ us) := by
      simpa using Extent.between_append stop (ts ++ us) []
    rw [script, hfuncs, ← hnote, ← hnote']
    simp only [bind, Except.bind, hparts]
    rfl

theorem Standalone.read {all : List Token} {e : Expr Extent} (h : Standalone all e) :
    ∃ ts stop, all = ts ++ [stop] ∧ stop.kind = .eof ∧ wholeExpression stop ts = .ok e := by
  cases h with
  | @mk ts stop e h hstop =>
    refine ⟨ts, stop, rfl, hstop, ?_⟩
    obtain ⟨h₁, hread⟩ : Yields (binary stop 3 ts) e [] :=
      h.read (.of_separates (by simp)) (by simp)
    rw [wholeExpression, expression, hread]
    rfl

end Grammar

end ScriptAnalysis
