import ScriptAnalysis.Proofs.Grammar

/-!
# Braces and the words that open definitions

The braces of a construct are nested, so they cancel out, and no more are closed than were opened.
The word of a function stands only where a function begins. The word of a variable stands only where
a declaration begins, and in a function that is behind an open brace. So a row of functions or of
declarations can be cut before any such word, and a program can be cut before the word of a variable
that stands behind no open brace.
-/

namespace ScriptAnalysis

namespace Kind

/-- How much deeper a token of a kind leads into braces. -/
def turn : Kind → Int
  | leftBrace => 1
  | rightBrace => -1
  | _ => 0

/-- Whether a kind is that of a word that opens a definition. -/
def isOpener : Kind → Bool
  | funcWord | varWord => true
  | _ => false

/-- Whether a kind is that of a word that opens a definition, or of a brace. -/
def isOuter : Kind → Bool
  | funcWord | varWord | leftBrace | rightBrace => true
  | _ => false

theorem turn_of_isOuter {kind : Kind} (h : kind.isOuter = false) : kind.turn = 0 := by
  cases kind <;> first | rfl | cases h

theorem isOpener_of_isOuter {kind : Kind} (h : kind.isOuter = false) : kind.isOpener = false := by
  cases kind <;> first | rfl | cases h

end Kind

namespace Grammar

/-- How many braces are open behind some tokens. -/
def net : List Token → Int
  | [] => 0
  | t :: ts => t.kind.turn + net ts

@[simp] theorem net_nil : net [] = 0 := rfl

@[simp] theorem net_cons (t : Token) (ts : List Token) : net (t :: ts) = t.kind.turn + net ts := rfl

@[simp] theorem net_append (ts us : List Token) : net (ts ++ us) = net ts + net us := by
  induction ts with
  | nil => exact (Int.zero_add _).symm
  | cons t ts ih => rw [List.cons_append, net_cons, net_cons, ih, Int.add_assoc]

/-- Whether no token is of a kind with a property. -/
def Lacks (p : Kind → Bool) (ts : List Token) : Prop := ∀ t ∈ ts, p t.kind = false

section

variable {p : Kind → Bool} {t : Token} {ts us : List Token}

@[simp] theorem lacks_nil : Lacks p [] := by simp [Lacks]

@[simp] theorem lacks_cons : Lacks p (t :: ts) ↔ p t.kind = false ∧ Lacks p ts := by
  simp [Lacks]

@[simp] theorem lacks_append : Lacks p (ts ++ us) ↔ Lacks p ts ∧ Lacks p us := by
  simp [Lacks, or_imp, forall_and]

theorem Lacks.ne {kind : Kind} (h : Lacks p ts) (hkind : p kind = true) :
    ∀ t ∈ ts, t.kind ≠ kind := by
  intro t ht heq
  have hfalse := h t ht
  rw [heq, hkind] at hfalse
  cases hfalse

end

theorem Lacks.isOpener {ts : List Token} (h : Lacks Kind.isOuter ts) : Lacks Kind.isOpener ts :=
  fun t ht ↦ Kind.isOpener_of_isOuter (h t ht)

open Kind (isOuter isOpener)

mutual

theorem Expression.lacks {level : Nat} {ts : List Token} {e : Expr Extent} :
    Expression level ts e → Lacks isOuter ts
  | .unary h => h.lacks
  | .operand h => h.lacks
  | @Expression.operation _ _ _ t _ _ _ hl hop _ hr => by
    have ht : isOuter t.kind = false := by
      generalize t.kind = kind at hop
      cases kind <;> first | rfl | simp [Operator.ofKind?] at hop
    exact lacks_append.2 ⟨hl.lacks, lacks_cons.2 ⟨ht, hr.lacks⟩⟩

theorem Unary.lacks {ts : List Token} {e : Expr Extent} : Unary ts e → Lacks isOuter ts
  | .negate ht h => lacks_cons.2 ⟨by rcases ht with ht | ht <;> simp [ht, isOuter], h.lacks⟩
  | .primary h => h.lacks

theorem Primary.lacks {ts : List Token} {e : Expr Extent} : Primary ts e → Lacks isOuter ts
  | .int ht | .string ht | .true ht | .false ht | .ident ht => by simp [ht, isOuter]
  | .call h => h.lacks
  | .parens hl h hr => by simp [hl, hr, h.lacks, isOuter]

theorem Call.lacks {ts : List Token} {note : Extent} {callee : String}
    {args : List (Expr Extent)} : Call ts note callee args → Lacks isOuter ts
  | .mk hn hl h => by simp [hn, hl, h.lacks, isOuter]

theorem Arguments.lacks {ts : List Token} {args : List (Expr Extent)} :
    Arguments ts args → Lacks isOuter ts
  | .none hr => by simp [hr, isOuter]
  | .some h => h.lacks

theorem ArgumentList.lacks {ts : List Token} {args : List (Expr Extent)} :
    ArgumentList ts args → Lacks isOuter ts
  | .last h hr => by simp [hr, h.lacks, isOuter]
  | .more h hc hs => by simp [hc, h.lacks, hs.lacks, isOuter]

end

mutual

theorem Statement.lacks {ts : List Token} {next : Token} {s : Stmt Extent} :
    Statement ts next s → Lacks isOpener ts
  | .assign hn heq h => by simp [hn, heq, h.lacks.isOpener, isOpener]
  | .call h => h.lacks.isOpener
  | .loop hw h hb => by simp [hw, h.lacks.isOpener, hb.lacks, isOpener]
  | .branch hw h ht => by simp [hw, h.lacks.isOpener, ht.lacks, isOpener]
  | .branchElse hw h ht ho hf => by
    simp [hw, ho, h.lacks.isOpener, ht.lacks, hf.lacks, isOpener]
  | .print hw h => by simp [hw, h.lacks.isOpener, isOpener]
  | .ret hw _ => by simp [hw, isOpener]
  | .retValue hw _ h => lacks_cons.2 ⟨by simp [hw, isOpener], h.lacks.isOpener⟩

theorem Statements.lacks {ts : List Token} {next : Token} {ss : List (Stmt Extent)} :
    Statements ts next ss → Lacks isOpener ts
  | .nil => lacks_nil
  | .cons h hs => lacks_append.2 ⟨h.lacks, hs.lacks⟩

theorem BraceBlock.lacks {ts : List Token} {b : Block Extent} :
    BraceBlock ts b → Lacks isOpener ts
  | .mk hl h hr => by simp [hl, hr, h.lacks, isOpener]

end

/-- A declaration has one word that opens a definition, its first. -/
theorem Declaration.lacks {ts : List Token} {d : VarDecl Extent} (h : Declaration ts d) :
    ∃ word more, ts = word :: more ∧ word.kind = .varWord ∧ Lacks isOuter more := by
  cases h with
  | plain hw hn hc ht => exact ⟨_, _, rfl, hw, by simp [hn, hc, ht, isOuter]⟩
  | initial hw hn hc ht heq h =>
    exact ⟨_, _, rfl, hw, by simp [hn, hc, ht, heq, h.lacks, isOuter]⟩

theorem Declarations.ne_funcWord {ts : List Token} {ds : List (VarDecl Extent)}
    (h : Declarations ts ds) : ∀ t ∈ ts, t.kind ≠ .funcWord := by
  induction h with
  | nil => exact List.forall_mem_nil _
  | cons h hs ih =>
    obtain ⟨word, more, rfl, hword, hmore⟩ := h.lacks
    rw [List.forall_mem_append, List.forall_mem_cons]
    exact ⟨⟨by simp [hword], hmore.ne rfl⟩, ih⟩

theorem Parts.ne_funcWord {ts : List Token} {next : Token} {vars : VarBlock Extent}
    {block : Block Extent} (h : Parts ts next vars block) : ∀ t ∈ ts, t.kind ≠ .funcWord := by
  cases h with
  | mk hd hs =>
    rw [List.forall_mem_append]
    exact ⟨hd.ne_funcWord, hs.lacks.ne rfl⟩

theorem ParameterList.lacks {ts : List Token} {ps : List (Param Extent)} (h : ParameterList ts ps) :
    Lacks isOuter ts := by
  induction h with
  | last h hr =>
    cases h with
    | mk hn hc ht => simp [hn, hc, ht, hr, isOuter]
  | more h hc hs ih =>
    cases h with
    | mk hn hcolon ht => simp [hn, hcolon, ht, hc, ih, isOuter]

theorem Parameters.lacks {ts : List Token} {ps : List (Param Extent)} (h : Parameters ts ps) :
    Lacks isOuter ts := by
  cases h with
  | none hr => simp [hr, isOuter]
  | some h => exact h.lacks

theorem ReturnType.lacks {ts : List Token} {returns : String} (h : ReturnType ts returns) :
    Lacks isOuter ts := by
  cases h with
  | none => exact lacks_nil
  | some hc ht => simp [hc, ht, isOuter]

/-! ## Nested braces -/

/-- Whether braces are closed only after they were opened, and all are closed. -/
structure Nested (ts : List Token) : Prop where
  nonneg : ∀ us vs, ts = us ++ vs → 0 ≤ net us
  closed : net ts = 0

section

variable {ts us : List Token} {l r : Token}

theorem net_eq_zero_of_turn (h : ∀ t ∈ ts, t.kind.turn = 0) : net ts = 0 := by
  induction ts with
  | nil => rfl
  | cons t ts ih =>
    rw [List.forall_mem_cons] at h
    rw [net_cons, h.1, ih h.2, Int.zero_add]

theorem Nested.of_turn (h : ∀ t ∈ ts, t.kind.turn = 0) : Nested ts where
  nonneg us vs hts := by
    rw [hts, List.forall_mem_append] at h
    exact Int.le_of_eq (net_eq_zero_of_turn h.1).symm
  closed := net_eq_zero_of_turn h

theorem Lacks.nested (h : Lacks isOuter ts) : Nested ts :=
  .of_turn fun t ht ↦ Kind.turn_of_isOuter (h t ht)

theorem Nested.append (h : Nested ts) (h' : Nested us) : Nested (ts ++ us) where
  nonneg vs ws heq := by
    rcases List.append_eq_append_iff.1 heq with ⟨zs, rfl, hus⟩ | ⟨zs, hts, -⟩
    · rw [net_append, h.closed, Int.zero_add]
      exact h'.nonneg zs ws hus
    · exact h.nonneg vs zs hts
  closed := by rw [net_append, h.closed, h'.closed, Int.zero_add]

/-- Behind the first of two braces and before the second, at least one brace is open. -/
theorem Nested.one_le_net (h : Nested ts) (hl : l.kind = .leftBrace) {vs ws : List Token}
    (hts : ts = vs ++ ws) : 1 ≤ net (l :: vs) := by
  have hinside := h.nonneg vs ws hts
  rw [net_cons, hl]
  exact Int.le_add_of_nonneg_right hinside

theorem Nested.wrap (h : Nested ts) (hl : l.kind = .leftBrace) (hr : r.kind = .rightBrace) :
    Nested (l :: (ts ++ [r])) := by
  have hclosed : net (l :: (ts ++ [r])) = 0 := by
    simp [hl, hr, h.closed, Kind.turn]
  refine ⟨?_, hclosed⟩
  intro vs ws heq
  cases vs with
  | nil => exact Int.le_refl 0
  | cons first vs =>
    obtain ⟨rfl, htail⟩ := List.cons.inj heq
    rcases List.append_eq_append_iff.1 htail with ⟨zs, rfl, hzs⟩ | ⟨zs, hts, -⟩
    · cases zs with
      | nil =>
        rw [List.append_nil]
        exact Int.le_of_lt (h.one_le_net hl (List.append_nil ts).symm)
      | cons z zs =>
        obtain ⟨rfl, hnil⟩ := List.cons.inj hzs
        obtain ⟨rfl, -⟩ := List.append_eq_nil_iff.1 hnil.symm
        exact Int.le_of_eq hclosed.symm
    · exact Int.le_of_lt (h.one_le_net hl hts)

end

mutual

theorem Statement.nested {ts : List Token} {next : Token} {s : Stmt Extent} :
    Statement ts next s → Nested ts
  | .assign hn heq h => Lacks.nested (by simp [hn, heq, h.lacks, isOuter])
  | .call h => h.lacks.nested
  | @Statement.loop _ word ts us _ _ hw h hb => by
    have hhead : Lacks isOuter (word :: ts) := by simp [hw, h.lacks, isOuter]
    exact hhead.nested.append hb.nested
  | @Statement.branch _ word ts us _ _ hw h ht => by
    have hhead : Lacks isOuter (word :: ts) := by simp [hw, h.lacks, isOuter]
    exact hhead.nested.append ht.nested
  | @Statement.branchElse _ word other ts us vs _ _ _ hw h ht ho hf => by
    have hhead : Lacks isOuter (word :: ts) := by simp [hw, h.lacks, isOuter]
    have helse : Lacks isOuter [other] := by simp [ho, isOuter]
    have hall := (hhead.nested.append ht.nested).append (helse.nested.append hf.nested)
    exact hall
  | .print hw h => Lacks.nested (by simp [hw, h.lacks, isOuter])
  | .ret hw _ => Lacks.nested (by simp [hw, isOuter])
  | .retValue hw _ h => Lacks.nested (lacks_cons.2 ⟨by simp [hw, isOuter], h.lacks⟩)

theorem Statements.nested {ts : List Token} {next : Token} {ss : List (Stmt Extent)} :
    Statements ts next ss → Nested ts
  | .nil => lacks_nil.nested
  | .cons h hs => h.nested.append hs.nested

theorem BraceBlock.nested {ts : List Token} {b : Block Extent} : BraceBlock ts b → Nested ts
  | .mk hl h hr => h.nested.wrap hl hr

end

theorem Declaration.nested {ts : List Token} {d : VarDecl Extent} (h : Declaration ts d) :
    Nested ts := by
  obtain ⟨word, more, rfl, hword, hmore⟩ := h.lacks
  apply Nested.of_turn
  rw [List.forall_mem_cons]
  exact ⟨by rw [hword]; rfl, fun t ht ↦ Kind.turn_of_isOuter (hmore t ht)⟩

theorem Declarations.nested {ts : List Token} {ds : List (VarDecl Extent)}
    (h : Declarations ts ds) : Nested ts := by
  induction h with
  | nil => exact lacks_nil.nested
  | cons h hs ih => exact h.nested.append ih

theorem Parts.nested {ts : List Token} {next : Token} {vars : VarBlock Extent}
    {block : Block Extent} (h : Parts ts next vars block) : Nested ts := by
  cases h with
  | mk hd hs => exact hd.nested.append hs.nested

/-- A function is its head, which has neither braces nor words that open other definitions, and its
body. -/
theorem Function.exists_head {ts : List Token} {f : FuncDef Extent} (h : Function ts f) :
    ∃ word head l inside r next vars block, ts = word :: (head ++ l :: (inside ++ [r])) ∧
      word.kind = .funcWord ∧ Lacks isOuter head ∧ l.kind = .leftBrace ∧
      Parts inside next vars block ∧ r.kind = .rightBrace := by
  cases h with
  | @mk word name paren ps rs _ _ _ _ hw hn hl hp hr hb =>
    cases hb with
    | @mk l r inside _ _ hbrace h hclose =>
      refine ⟨word, name :: paren :: (ps ++ rs), l, inside, r, r, _, _, ?_, hw, ?_, hbrace, h,
        hclose⟩
      · simp
      · simp [hn, hl, hp.lacks, hr.lacks, isOuter]

theorem Function.nested {ts : List Token} {f : FuncDef Extent} (h : Function ts f) : Nested ts := by
  obtain ⟨word, head, l, inside, r, next, vars, block, rfl, hword, hhead, hl, hinside, hr⟩ :=
    h.exists_head
  have hstart : Nested (word :: head) := by
    apply Nested.of_turn
    rw [List.forall_mem_cons]
    exact ⟨by rw [hword]; rfl, fun t ht ↦ Kind.turn_of_isOuter (hhead t ht)⟩
  exact hstart.append (hinside.nested.wrap hl hr)

theorem Functions.nested {ts : List Token} {fs : List (FuncDef Extent)} (h : Functions ts fs) :
    Nested ts := by
  induction h with
  | nil => exact lacks_nil.nested
  | cons h hs ih => exact h.nested.append ih

/-- A token in the middle of two rows is in the first or in the second. -/
theorem append_cons_eq_append {ts us before after : List Token} {t : Token}
    (h : ts ++ us = before ++ t :: after) :
    (∃ mid, ts = before ++ t :: mid ∧ after = mid ++ us) ∨
      ∃ mid, before = ts ++ mid ∧ us = mid ++ t :: after := by
  rcases List.append_eq_append_iff.1 h with ⟨mid, hbefore, hus⟩ | ⟨mid, hts, hafter⟩
  · exact .inr ⟨mid, hbefore, hus⟩
  · cases mid with
    | nil => exact .inr ⟨[], by simpa using hts.symm, hafter.symm⟩
    | cons first mid =>
      obtain ⟨rfl, rfl⟩ := List.cons.inj hafter
      exact .inl ⟨mid, hts, rfl⟩

/-- A token of a kind that only the first token of a row has is that token. -/
theorem eq_nil_of_cons_eq_append {word t : Token} {more before after : List Token}
    (hmore : ∀ u ∈ more, u.kind ≠ t.kind) (h : word :: more = before ++ t :: after) :
    before = [] := by
  cases before with
  | nil => rfl
  | cons first before =>
    obtain ⟨-, rfl⟩ := List.cons.inj h
    exact absurd rfl (hmore t (by simp))

section

variable {before after : List Token} {t : Token}

theorem Declarations.cut {ts : List Token} {ds : List (VarDecl Extent)} (h : Declarations ts ds)
    (hts : ts = before ++ t :: after) (ht : t.kind = .varWord) :
    ∃ ds₁ ds₂, ds = ds₁ ++ ds₂ ∧ Declarations before ds₁ ∧ Declarations (t :: after) ds₂ := by
  induction h generalizing before with
  | nil => exact absurd hts.symm (by simp)
  | @cons us vs d ds h hs ih =>
    rcases append_cons_eq_append hts with ⟨mid, hus, rfl⟩ | ⟨mid, rfl, hvs⟩
    · obtain ⟨word, more, rfl, -, hmore⟩ := h.lacks
      obtain rfl := eq_nil_of_cons_eq_append (ht ▸ hmore.ne rfl) hus
      refine ⟨[], d :: ds, rfl, .nil, ?_⟩
      rw [← List.nil_append (t :: _), ← hts]
      exact .cons h hs
    · obtain ⟨ds₁, ds₂, rfl, hfirst, hsecond⟩ := ih hvs
      exact ⟨d :: ds₁, ds₂, rfl, .cons h hfirst, hsecond⟩

/-- Only the first token of a function is the word of a function. -/
theorem Function.eq_nil_of_funcWord {f : FuncDef Extent} (h : Function (before ++ t :: after) f)
    (ht : t.kind = .funcWord) : before = [] := by
  generalize hts : before ++ t :: after = ts at h
  obtain ⟨word, head, l, inside, r, next, vars, block, rfl, -, hhead, hl, hinside, hr⟩ :=
    h.exists_head
  have hmore : ∀ u ∈ head ++ l :: (inside ++ [r]), u.kind ≠ .funcWord := by
    rw [List.forall_mem_append, List.forall_mem_cons, List.forall_mem_append]
    exact ⟨hhead.ne rfl, by simp [hl], hinside.ne_funcWord, by simp [hr]⟩
  exact eq_nil_of_cons_eq_append (ht ▸ hmore) hts.symm

theorem Functions.cut {ts : List Token} {fs : List (FuncDef Extent)} (h : Functions ts fs)
    (hts : ts = before ++ t :: after) (ht : t.kind = .funcWord) :
    ∃ fs₁ fs₂, fs = fs₁ ++ fs₂ ∧ Functions before fs₁ ∧ Functions (t :: after) fs₂ := by
  induction h generalizing before with
  | nil => exact absurd hts.symm (by simp)
  | @cons us vs f fs h hs ih =>
    rcases append_cons_eq_append hts with ⟨mid, rfl, rfl⟩ | ⟨mid, rfl, hvs⟩
    · obtain rfl := h.eq_nil_of_funcWord ht
      refine ⟨[], f :: fs, rfl, .nil, ?_⟩
      rw [← List.nil_append (t :: _), ← hts]
      exact .cons h hs
    · obtain ⟨fs₁, fs₂, rfl, hfirst, hsecond⟩ := ih hvs
      exact ⟨f :: fs₁, fs₂, rfl, .cons h hfirst, hsecond⟩

/-- In a function, the word of a variable stands behind an open brace. -/
theorem Function.one_le_net {f : FuncDef Extent} (h : Function (before ++ t :: after) f)
    (ht : t.kind = .varWord) : 1 ≤ net before := by
  generalize hts : before ++ t :: after = ts at h
  obtain ⟨word, head, l, inside, r, next, vars, block, rfl, hword, hhead, hl, hinside, hr⟩ :=
    h.exists_head
  have hstart : net (word :: head) = 0 := by
    rw [net_cons, hword, hhead.nested.closed]
    rfl
  rw [← List.cons_append] at hts
  rcases append_cons_eq_append hts.symm with ⟨mid, hhead', -⟩ | ⟨mid, rfl, hbody⟩
  · -- The head has no such word.
    have hmem : t ∈ word :: head := by
      rw [hhead']
      simp
    rcases List.mem_cons.1 hmem with rfl | hmem
    · cases hword.symm.trans ht
    · exact absurd ht (hhead.ne rfl t hmem)
  · rw [net_append, hstart, Int.zero_add]
    cases mid with
    | nil =>
      obtain ⟨rfl, -⟩ := List.cons.inj hbody
      cases hl.symm.trans ht
    | cons first mid =>
      obtain ⟨rfl, hinner⟩ := List.cons.inj hbody
      rcases append_cons_eq_append hinner with ⟨rest, hrest, -⟩ | ⟨rest, -, hlast⟩
      · exact hinside.nested.one_le_net hl hrest
      · have hmem : t ∈ [r] := by
          rw [hlast]
          simp
        obtain rfl := List.mem_singleton.1 hmem
        cases hr.symm.trans ht

theorem Functions.one_le_net {ts : List Token} {fs : List (FuncDef Extent)} (h : Functions ts fs)
    (hts : ts = before ++ t :: after) (ht : t.kind = .varWord) : 1 ≤ net before := by
  induction h generalizing before with
  | nil => exact absurd hts.symm (by simp)
  | @cons us vs f fs h hs ih =>
    rcases append_cons_eq_append hts with ⟨mid, rfl, rfl⟩ | ⟨mid, rfl, hvs⟩
    · exact h.one_le_net ht
    · rw [net_append, h.nested.closed, Int.zero_add]
      exact ih hvs

variable {ts : List Token} {stop : Token} {tree : Script Extent}

theorem Program.exists_parts (h : Program (ts ++ [stop]) tree) :
    ∃ fts dts sts main, ts = fts ++ (dts ++ sts) ∧ Functions fts tree.funcs ∧
      tree.main = some main ∧ Declarations dts main.vars.decls ∧
      Statements sts stop main.block.stmts := by
  generalize hall : ts ++ [stop] = all at h
  cases h with
  | mk hf hm hstop =>
    obtain ⟨rfl, hmark⟩ := List.append_inj' hall rfl
    obtain rfl := (List.singleton_inj.1 hmark)
    cases hm with
    | mk hd hs => exact ⟨_, _, _, _, rfl, hf, rfl, hd, hs⟩

theorem Program.net_eq_zero (h : Program (ts ++ [stop]) tree) : net ts = 0 := by
  obtain ⟨fts, dts, sts, main, rfl, hf, -, hd, hs⟩ := h.exists_parts
  rw [net_append, net_append, hf.nested.closed, hd.nested.closed, hs.nested.closed]
  rfl

/-- Before the word of a function, a program has only functions. -/
theorem Program.cut_functions (h : Program (ts ++ [stop]) tree) (hts : ts = before ++ t :: after)
    (ht : t.kind = .funcWord) :
    ∃ fs₁ fs₂ mid, tree.funcs = fs₁ ++ fs₂ ∧ Functions before fs₁ ∧ Functions (t :: mid) fs₂ ∧
      mid <+: after := by
  obtain ⟨fts, dts, sts, main, rfl, hf, -, hd, hs⟩ := h.exists_parts
  rcases append_cons_eq_append hts with ⟨mid, rfl, rfl⟩ | ⟨mid, -, hrest⟩
  · obtain ⟨fs₁, fs₂, hfs, hfirst, hsecond⟩ := hf.cut rfl ht
    exact ⟨fs₁, fs₂, mid, hfs, hfirst, hsecond, List.prefix_append mid _⟩
  · have hmem : t ∈ dts ++ sts := by
      rw [hrest]
      simp
    rcases List.mem_append.1 hmem with hmem | hmem
    · exact absurd ht (hd.ne_funcWord t hmem)
    · exact absurd ht (hs.lacks.ne rfl t hmem)

/-- Before the word of a variable that stands behind no open brace, a program has all its functions
and then only declarations. -/
theorem Program.cut_declarations (h : Program (ts ++ [stop]) tree)
    (hts : ts = before ++ t :: after) (ht : t.kind = .varWord) (hnet : net before = 0) :
    ∃ fts dts mid main ds₁ ds₂, before = fts ++ dts ∧ Functions fts tree.funcs ∧
      tree.main = some main ∧ main.vars.decls = ds₁ ++ ds₂ ∧ Declarations dts ds₁ ∧
      Declarations (t :: mid) ds₂ ∧ mid <+: after := by
  obtain ⟨fts, dts, sts, main, rfl, hf, hmain, hd, hs⟩ := h.exists_parts
  rcases append_cons_eq_append hts with ⟨mid, hfts, -⟩ | ⟨front, rfl, hrest⟩
  · have hopen := hf.one_le_net hfts ht
    omega
  · rcases append_cons_eq_append hrest with ⟨mid, rfl, rfl⟩ | ⟨mid, -, hsts⟩
    · obtain ⟨ds₁, ds₂, hds, hfirst, hsecond⟩ := hd.cut rfl ht
      exact ⟨fts, front, mid, main, ds₁, ds₂, rfl, hf, hmain, hds, hfirst, hsecond,
        List.prefix_append mid _⟩
    · have hmem : t ∈ sts := by
        rw [hsts]
        simp
      exact absurd ht (hs.lacks.ne rfl t hmem)

end

end Grammar

end ScriptAnalysis
