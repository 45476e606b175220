import ScriptAnalysis.Proofs.OutlineLines

/-!
# Outlines tell programs

Blocks are shown in an outline by the depth of their lines alone, and what begins with a line is
told by its first word. A block ends where the next line is less deep, the other branch of a
condition follows where the next line begins with `else`, and declarations end where it does not
begin with `var`. So programs with the same outline are the same but for their notes.
-/

namespace ScriptAnalysis

variable {α : Type}

namespace Stmt

/-- The first word in the outline of a statement. -/
def firstWord : Stmt α → String
  | .assign _ target _ => target
  | .loop _ _ _ => "while"
  | .branch _ _ _ _ => "if"
  | .print _ _ => "print"
  | .ret _ _ => "return"
  | .call _ _ callee _ => callee

/-- What follows the first word on its line. -/
def afterWord : Stmt α → String
  | .assign _ _ value => " = " ++ value.outline
  | .loop _ condition _ | .branch _ condition _ _ => " " ++ condition.outline ++ ":"
  | .print _ value | .ret _ (some value) => " " ++ value.outline
  | .ret _ none => ""
  | .call _ _ _ args => "(" ++ ", ".intercalate (Expr.outlines args) ++ ")"

/-- The lines behind the first. -/
def laterLines (depth : Nat) : Stmt α → String
  | .loop _ _ body | .branch _ _ body none => body.outline (depth + 1)
  | .branch _ _ whenTrue (some whenFalse) =>
    whenTrue.outline (depth + 1) ++
      (outlineLine depth ("else" ++ ":") ++ whenFalse.outline (depth + 1))
  | _ => ""

/-- The kind of the first word. -/
def firstKind : Stmt α → Kind
  | .assign _ _ _ | .call _ _ _ _ => .ident
  | .loop _ _ _ => .whileWord
  | .branch _ _ _ _ => .ifWord
  | .print _ _ => .printWord
  | .ret _ _ => .returnWord

theorem outline_call (note callNote : α) (callee : String) (args : List (Expr α)) :
    (Expr.call note callee args).outline =
      (Stmt.call note callNote callee args).firstWord ++
        (Stmt.call note callNote callee args).afterWord := by
  simp only [Expr.outline, firstWord, afterWord, String.append_assoc]

theorem outline_eq (depth : Nat) (s : Stmt α) :
    s.outline depth = outlineLine depth (s.firstWord ++ s.afterWord) ++ s.laterLines depth := by
  rw [← String.toList_inj]
  cases s with
  | branch note condition whenTrue whenFalse =>
    cases whenFalse <;> simp [Stmt.outline, firstWord, afterWord, laterLines, outlineLine]
  | ret note value =>
    cases value <;> simp [Stmt.outline, firstWord, afterWord, laterLines, outlineLine]
  | _ => simp [Stmt.outline, firstWord, afterWord, laterLines, outlineLine, Expr.outline]

end Stmt

/-- How the initial value of a variable is shown. -/
def VarDecl.initial (d : VarDecl α) : String :=
  match d.init with
  | none => ""
  | some e => " = " ++ e.outline

theorem VarDecl.outline_eq (depth : Nat) (d : VarDecl α) :
    d.outline depth =
      outlineLine depth ("var" ++ (" " ++ (d.name ++ (" : " ++ (d.type ++ d.initial))))) := by
  have hvar : "var " = "var" ++ " " := by simp
  simp only [VarDecl.outline, hvar, String.append_assoc]
  rfl

/-- Whether a text cannot continue the lines of a block at a depth. -/
def EndsBlock (depth : Nat) (more : String) : Prop := (lineStart more).1 < 2 * depth

/-- Whether a text cannot continue the lines of a statement at a depth. -/
structure EndsStatement (depth : Nat) (more : String) : Prop where
  shallow : EndsBlock (depth + 1) more
  other : lineStart more ≠ (2 * depth, "else".toList)

theorem isLine_reserved (kind : Kind) (hkind : kind ∈ Lexer.reservedWords) {tail : String}
    (hstops : StopsWord tail) (hends : '\n' ∉ tail.toList) : IsLine kind.name tail :=
  ⟨Lexer.isWord_of_reserved kind hkind, hstops, hends⟩

theorem isLine_else : IsLine "else" ":" := by
  apply isLine_reserved .elseWord (by decide)
  · exact .of_head (c := ':') (by simp) (by decide)
  · simp

namespace Grammar

open Lexer (Lexed IsWord isWordPart)

variable {ts us : List Token} {next next' : Token} {depth : Nat} {more more' : String}

theorem isLine_lexeme {t : Token} (ht : Lexed t) (hkind : t.kind = .ident) {tail : String}
    (hstops : StopsWord tail) (hends : '\n' ∉ tail.toList) :
    IsLine t.lexeme tail ∧ Kind.ofWord t.lexeme = .ident := by
  have hword := ht.isWord (by simp [hkind])
  rw [hkind] at hword
  exact ⟨⟨hword.1, hstops, hends⟩, hword.2⟩

theorem stopsWord_blank (text : String) : StopsWord (" " ++ text) :=
  .of_head (c := ' ') (by simp) (by decide)

theorem Statement.isLine {s : Stmt Extent} (h : Statement ts next s) (hts : ∀ t ∈ ts, Lexed t) :
    IsLine s.firstWord s.afterWord ∧ Kind.ofWord s.firstWord = s.firstKind := by
  have hcondition (kind : Kind) (hkind : kind ∈ Lexer.reservedWords) {us : List Token}
      {e : Expr Extent} (h : Expression 3 us e) (hus : ∀ t ∈ us, Lexed t) :
      IsLine kind.name (" " ++ e.outline ++ ":") := by
    apply isLine_reserved kind hkind
    · rw [String.append_assoc]
      exact stopsWord_blank _
    · simpa using h.newline_notMem_outline hus
  have hvalue (kind : Kind) (hkind : kind ∈ Lexer.reservedWords) {us : List Token}
      {e : Expr Extent} (h : Expression 3 us e) (hus : ∀ t ∈ us, Lexed t) :
      IsLine kind.name (" " ++ e.outline) := by
    apply isLine_reserved kind hkind (stopsWord_blank _)
    simpa using h.newline_notMem_outline hus
  cases h with
  | @assign _ name eq us e hn heq h =>
    rw [List.forall_mem_cons, List.forall_mem_cons] at hts
    have hstops : StopsWord (" = " ++ e.outline) := .of_head (c := ' ') (by simp) (by decide)
    have hends : '\n' ∉ (" = " ++ e.outline).toList := by
      simpa using h.newline_notMem_outline hts.2.2
    exact isLine_lexeme hts.1 hn hstops hends
  | @call _ _ note callee args h =>
    have hstops : StopsWord ("(" ++ ", ".intercalate (Expr.outlines args) ++ ")") :=
      .of_head (c := '(') (by simp) (by decide)
    have hends : '\n' ∉ ("(" ++ ", ".intercalate (Expr.outlines args) ++ ")").toList := by
      have hwhole := h.raise.newline_notMem_outline hts
      simp only [Expr.outline, String.append_assoc, String.toList_append, List.mem_append,
        not_or] at hwhole ⊢
      exact hwhole.2
    cases h with
    | mk hn hl h => exact isLine_lexeme (hts _ List.mem_cons_self) hn hstops hends
  | loop hw h hb =>
    rw [List.forall_mem_cons, List.forall_mem_append] at hts
    exact ⟨hcondition .whileWord (by decide) h hts.2.1, rfl⟩
  | branch hw h ht =>
    rw [List.forall_mem_cons, List.forall_mem_append] at hts
    exact ⟨hcondition .ifWord (by decide) h hts.2.1, rfl⟩
  | branchElse hw h ht ho hf =>
    rw [List.forall_mem_cons, List.forall_mem_append, List.forall_mem_append] at hts
    exact ⟨hcondition .ifWord (by decide) h hts.2.1.1, rfl⟩
  | print hw h =>
    rw [List.forall_mem_cons] at hts
    exact ⟨hvalue .printWord (by decide) h hts.2, rfl⟩
  | ret hw hn =>
    have hstops : StopsWord "" := by simp [StopsWord]
    have hends : '\n' ∉ "".toList := by simp
    exact ⟨isLine_reserved .returnWord (by decide) hstops hends, rfl⟩
  | retValue hw hv h =>
    rw [List.forall_mem_cons] at hts
    exact ⟨hvalue .returnWord (by decide) h hts.2, rfl⟩

/-- Whether two statements have the same first line and the same text behind it. -/
structure SameLines (depth : Nat) (s s' : Stmt Extent) (more more' : String) : Prop where
  kind : s.firstKind = s'.firstKind
  word : s.firstWord = s'.firstWord
  after : s.afterWord = s'.afterWord
  later : s.laterLines depth ++ more = s'.laterLines depth ++ more'

theorem Statement.sameLines {s s' : Stmt Extent} (h : Statement ts next s)
    (hts : ∀ t ∈ ts, Lexed t) (h' : Statement us next' s') (hus : ∀ t ∈ us, Lexed t)
    (heq : s.outline depth ++ more = s'.outline depth ++ more') :
    SameLines depth s s' more more' := by
  have hline := h.isLine hts
  have hline' := h'.isLine hus
  rw [Stmt.outline_eq, Stmt.outline_eq, String.append_assoc, String.append_assoc] at heq
  have hparts := hline.1.inj hline'.1 heq
  refine ⟨?_, hparts.1, hparts.2.1, hparts.2.2⟩
  rw [← hline.2, hparts.1, hline'.2]

/-- A line that begins a statement is none of those that begin with another reserved word. -/
theorem Statement.lineStart_ne {s : Stmt Extent} (h : Statement ts next s)
    (hts : ∀ t ∈ ts, Lexed t) (kind : Kind) (hkind : kind ∈ Lexer.reservedWords)
    (hother : startsStatement kind = false) (depth : Nat) (more : String) :
    lineStart (s.outline depth ++ more) ≠ (2 * depth, kind.name.toList) := by
  have hline := h.isLine hts
  rw [Stmt.outline_eq, String.append_assoc, hline.1.lineStart_eq]
  intro hsame
  have hword : s.firstWord = kind.name := String.toList_inj.1 (congrArg Prod.snd hsame)
  have hfirst : s.firstKind = kind := by
    rw [← hline.2, hword, Lexer.ofWord_of_reserved kind hkind]
  have hstarts : startsStatement s.firstKind = true := by cases s <;> rfl
  rw [hfirst, hother] at hstarts
  cases hstarts

/-- Where a block ends, a line of the block would be deeper. -/
theorem lineStart_ne_of_endsBlock (h : EndsBlock depth more) (word : List Char) :
    lineStart more ≠ (2 * depth, word) := by
  intro hsame
  rw [EndsBlock, hsame] at h
  exact Nat.lt_irrefl _ h

theorem Statements.lineStart_ne {ss : List (Stmt Extent)} (h : Statements ts next ss)
    (hts : ∀ t ∈ ts, Lexed t) (kind : Kind) (hkind : kind ∈ Lexer.reservedWords)
    (hother : startsStatement kind = false) (hmore : EndsBlock depth more) :
    lineStart (Stmt.outlines depth ss ++ more) ≠ (2 * depth, kind.name.toList) := by
  cases h with
  | nil =>
    rw [Stmt.outlines, String.empty_append]
    exact lineStart_ne_of_endsBlock hmore _
  | cons h hs =>
    rw [List.forall_mem_append] at hts
    rw [Stmt.outlines, String.append_assoc]
    exact h.lineStart_ne hts.1 kind hkind hother depth _

theorem Statement.not_endsBlock {s : Stmt Extent} (h : Statement ts next s)
    (hts : ∀ t ∈ ts, Lexed t) (more : String) : ¬ EndsBlock depth (s.outline depth ++ more) := by
  rw [EndsBlock, Stmt.outline_eq, String.append_assoc, (h.isLine hts).1.lineStart_eq]
  exact Nat.lt_irrefl _

/-- The statements behind a statement do not continue it. -/
theorem Statements.endsStatement {ss : List (Stmt Extent)} (h : Statements ts next ss)
    (hts : ∀ t ∈ ts, Lexed t) (hmore : EndsBlock depth more) :
    EndsStatement depth (Stmt.outlines depth ss ++ more) := by
  refine ⟨?_, h.lineStart_ne hts .elseWord (by decide) rfl hmore⟩
  unfold EndsBlock at hmore ⊢
  cases h with
  | nil =>
    rw [Stmt.outlines, String.empty_append]
    omega
  | cons h hs =>
    rw [List.forall_mem_append] at hts
    rw [Stmt.outlines, Stmt.outline_eq, String.append_assoc, String.append_assoc,
      (h.isLine hts.1).1.lineStart_eq]
    omega

theorem endsBlock_else (more : String) :
    EndsBlock (depth + 1) (outlineLine depth ("else" ++ ":") ++ more) := by
  rw [EndsBlock, isLine_else.lineStart_eq]
  omega

theorem condition_inj {text text' : String} (h : " " ++ text ++ ":" = " " ++ text' ++ ":") :
    text = text' :=
  (String.append_right_inj _).1 ((String.append_left_inj _).1 h)

theorem assigned_ne_called (value args : String) : " = " ++ value ≠ "(" ++ args ++ ")" := by
  intro h
  have hhead := congrArg (·.toList.head?) h
  simp at hhead

theorem empty_ne_blank (text : String) : "" ≠ " " ++ text := by
  intro h
  have hhead := congrArg (·.toList.head?) h
  simp at hhead

/-- One branch with the other behind it, and the lines after them. -/
theorem laterLines_branchElse (note : Extent) (e : Expr Extent) (b c : Block Extent) :
    (Stmt.branch note e b (some c)).laterLines depth ++ more =
      b.outline (depth + 1) ++
        (outlineLine depth ("else" ++ ":") ++ (c.outline (depth + 1) ++ more)) := by
  simp only [Stmt.laterLines, String.append_assoc]

mutual

theorem Statement.shape_eq {ts us : List Token} {next next' : Token} {s s' : Stmt Extent}
    {depth : Nat} {more more' : String} :
    Statement ts next s → (∀ t ∈ ts, Lexed t) → Statement us next' s' → (∀ t ∈ us, Lexed t) →
      EndsStatement depth more → EndsStatement depth more' → SameLines depth s s' more more' →
      s.shape = s'.shape ∧ more = more'
  | .assign hn heq h, hts, h', hus, _, _, hsame => by
    cases h' with
    | assign hn' heq' h' =>
      rw [List.forall_mem_cons, List.forall_mem_cons] at hts hus
      have hvalue := h.shape_eq h' hts.2.2 hus.2.2 ((String.append_right_inj _).1 hsame.after)
      exact ⟨congrArg₂ (Stmt.assign ()) hsame.word hvalue,
        (String.append_right_inj _).1 hsame.later⟩
    | call h' => exact absurd hsame.after (assigned_ne_called _ _)
    | _ => cases hsame.kind
  | .call h, hts, h', hus, _, _, hsame => by
    cases h' with
    | assign hn' heq' h' => exact absurd hsame.after.symm (assigned_ne_called _ _)
    | call h' =>
      have houtline := congrArg₂ (· ++ ·) hsame.word hsame.after
      simp only [← Stmt.outline_call] at houtline
      have hshape := h.raise.shape_eq h'.raise hts hus houtline
      obtain ⟨-, hcallee, hargs⟩ := Expr.call.inj hshape
      exact ⟨congrArg₂ (Stmt.call () ()) hcallee hargs, (String.append_right_inj _).1 hsame.later⟩
    | _ => cases hsame.kind
  | .loop hw h hb, hts, h', hus, hmore, hmore', hsame => by
    cases h' with
    | loop hw' h' hb' =>
      rw [List.forall_mem_cons, List.forall_mem_append] at hts hus
      have hcondition := h.shape_eq h' hts.2.1 hus.2.1 (condition_inj hsame.after)
      have hbody := hb.outline_inj hts.2.2 hb' hus.2.2 hmore.shallow hmore'.shallow hsame.later
      exact ⟨congrArg₂ (Stmt.loop ()) hcondition hbody.1, hbody.2⟩
    | _ => cases hsame.kind
  | .branch hw h ht, hts, h', hus, hmore, hmore', hsame => by
    cases h' with
    | branch hw' h' ht' =>
      rw [List.forall_mem_cons, List.forall_mem_append] at hts hus
      have hcondition := h.shape_eq h' hts.2.1 hus.2.1 (condition_inj hsame.after)
      have hblock := ht.outline_inj hts.2.2 ht' hus.2.2 hmore.shallow hmore'.shallow hsame.later
      exact ⟨congrArg₂ (Stmt.branch () · · none) hcondition hblock.1, hblock.2⟩
    | branchElse hw' h' ht' ho' hf' =>
      simp only [List.forall_mem_cons, List.forall_mem_append] at hts hus
      have hlater := hsame.later
      rw [laterLines_branchElse] at hlater
      have hblock := ht.outline_inj hts.2.2 ht' hus.2.1.2 hmore.shallow (endsBlock_else _) hlater
      exact absurd (hblock.2 ▸ isLine_else.lineStart_eq depth _) hmore.other
    | _ => cases hsame.kind
  | .branchElse hw h ht ho hf, hts, h', hus, hmore, hmore', hsame => by
    have hlater := hsame.later
    rw [laterLines_branchElse] at hlater
    cases h' with
    | branch hw' h' ht' =>
      simp only [List.forall_mem_cons, List.forall_mem_append] at hts hus
      have hblock := ht.outline_inj hts.2.1.2 ht' hus.2.2 (endsBlock_else _) hmore'.shallow hlater
      exact absurd (hblock.2 ▸ isLine_else.lineStart_eq depth _) hmore'.other
    | branchElse hw' h' ht' ho' hf' =>
      simp only [List.forall_mem_cons, List.forall_mem_append] at hts hus
      rw [laterLines_branchElse] at hlater
      have hcondition := h.shape_eq h' hts.2.1.1 hus.2.1.1 (condition_inj hsame.after)
      have hblock := ht.outline_inj hts.2.1.2 ht' hus.2.1.2 (endsBlock_else _) (endsBlock_else _)
        hlater
      have hother := hf.outline_inj hts.2.2.2 hf' hus.2.2.2 hmore.shallow hmore'.shallow
        ((String.append_right_inj _).1 hblock.2)
      have hbranch := congrArg₂ (Stmt.branch ()) hcondition hblock.1
      have hboth := congr hbranch (congrArg some hother.1)
      exact ⟨hboth, hother.2⟩
    | _ => cases hsame.kind
  | .print hw h, hts, h', hus, _, _, hsame => by
    cases h' with
    | print hw' h' =>
      rw [List.forall_mem_cons] at hts hus
      have hvalue := h.shape_eq h' hts.2 hus.2 ((String.append_right_inj _).1 hsame.after)
      exact ⟨congrArg (Stmt.print ()) hvalue, (String.append_right_inj _).1 hsame.later⟩
    | _ => cases hsame.kind
  | .ret hw hn, hts, h', hus, _, _, hsame => by
    cases h' with
    | ret hw' hn' => exact ⟨rfl, (String.append_right_inj _).1 hsame.later⟩
    | retValue hw' hv' h' => exact absurd hsame.after (empty_ne_blank _)
    | _ => cases hsame.kind
  | .retValue hw hv h, hts, h', hus, _, _, hsame => by
    cases h' with
    | ret hw' hn' => exact absurd hsame.after.symm (empty_ne_blank _)
    | retValue hw' hv' h' =>
      rw [List.forall_mem_cons] at hts hus
      have hvalue := h.shape_eq h' hts.2 hus.2 ((String.append_right_inj _).1 hsame.after)
      exact ⟨congrArg (Stmt.ret () ∘ some) hvalue, (String.append_right_inj _).1 hsame.later⟩
    | _ => cases hsame.kind

theorem Statements.outline_inj {ts us : List Token} {next next' : Token}
    {ss ss' : List (Stmt Extent)} {depth : Nat} {more more' : String} :
    Statements ts next ss → (∀ t ∈ ts, Lexed t) → Statements us next' ss' → (∀ t ∈ us, Lexed t) →
      EndsBlock depth more → EndsBlock depth more' →
      Stmt.outlines depth ss ++ more = Stmt.outlines depth ss' ++ more' →
        Stmt.mapAll (fun _ ↦ ()) ss = Stmt.mapAll (fun _ ↦ ()) ss' ∧ more = more'
  | .nil, hts, h', hus, hmore, hmore', hsame => by
    rw [Stmt.outlines, String.empty_append] at hsame
    cases h' with
    | nil =>
      rw [Stmt.outlines, String.empty_append] at hsame
      exact ⟨rfl, hsame⟩
    | cons h' hs' =>
      rw [List.forall_mem_append] at hus
      rw [Stmt.outlines, String.append_assoc] at hsame
      exact absurd (hsame ▸ hmore) (h'.not_endsBlock hus.1 _)
  | .cons h hs, hts, h', hus, hmore, hmore', hsame => by
    rw [List.forall_mem_append] at hts
    rw [Stmt.outlines, String.append_assoc] at hsame
    cases h' with
    | nil =>
      rw [Stmt.outlines, String.empty_append] at hsame
      exact absurd (hsame ▸ hmore') (h.not_endsBlock hts.1 _)
    | cons h' hs' =>
      rw [List.forall_mem_append] at hus
      rw [Stmt.outlines, String.append_assoc] at hsame
      have hfirst := h.shape_eq hts.1 h' hus.1 (hs.endsStatement hts.2 hmore)
        (hs'.endsStatement hus.2 hmore') (h.sameLines hts.1 h' hus.1 hsame)
      have hothers := hs.outline_inj hts.2 hs' hus.2 hmore hmore' hfirst.2
      exact ⟨congrArg₂ List.cons hfirst.1 hothers.1, hothers.2⟩

theorem BraceBlock.outline_inj {ts us : List Token} {b b' : Block Extent} {depth : Nat}
    {more more' : String} :
    BraceBlock ts b → (∀ t ∈ ts, Lexed t) → BraceBlock us b' → (∀ t ∈ us, Lexed t) →
      EndsBlock depth more → EndsBlock depth more' →
      b.outline depth ++ more = b'.outline depth ++ more' →
        b.map (fun _ ↦ ()) = b'.map (fun _ ↦ ()) ∧ more = more'
  | .mk hl h hr, hts, .mk hl' h' hr', hus, hmore, hmore', hsame => by
    rw [List.forall_mem_cons, List.forall_mem_append] at hts hus
    have hstmts := h.outline_inj hts.2.1 h' hus.2.1 hmore hmore' hsame
    exact ⟨congrArg (Block.mk ()) hstmts.1, hstmts.2⟩

end

/-! ## Declarations -/

/-- Whether the parts of a declaration can be told apart on its line. -/
structure DeclarationLine (d : VarDecl Extent) : Prop where
  name : IsWord d.name.toList
  type : IsWord d.type.toList
  stops : StopsWord d.initial
  ends : '\n' ∉ d.initial.toList

theorem Declaration.declarationLine {d : VarDecl Extent} (h : Declaration ts d)
    (hts : ∀ t ∈ ts, Lexed t) : DeclarationLine d := by
  cases h with
  | plain hw hn hc ht =>
    simp only [List.forall_mem_cons] at hts
    exact ⟨(hts.2.1.isWord (by simp [hn])).1, (hts.2.2.2.1.isWord (by simp [ht])).1,
      by simp [StopsWord, VarDecl.initial], by simp [VarDecl.initial]⟩
  | @initial word name colon type eq us e hw hn hc ht heq h =>
    simp only [List.forall_mem_cons] at hts
    have hstops : StopsWord (" = " ++ e.outline) := .of_head (c := ' ') (by simp) (by decide)
    have hends : '\n' ∉ (" = " ++ e.outline).toList := by
      simpa using h.newline_notMem_outline hts.2.2.2.2.2
    exact ⟨(hts.2.1.isWord (by simp [hn])).1, (hts.2.2.2.1.isWord (by simp [ht])).1, hstops, hends⟩

theorem DeclarationLine.isLine {d : VarDecl Extent} (h : DeclarationLine d) :
    IsLine "var" (" " ++ (d.name ++ (" : " ++ (d.type ++ d.initial)))) := by
  have hnewline {word : String} (hword : IsWord word.toList) : '\n' ∉ word.toList :=
    Lexer.notMem_of_isRun (by decide) (by decide) hword
  apply isLine_reserved .varWord (by decide) (stopsWord_blank _)
  simpa using ⟨hnewline h.name, hnewline h.type, h.ends⟩

/-- The line of a declaration tells its parts. -/
theorem DeclarationLine.inj {d d' : VarDecl Extent} (h : DeclarationLine d)
    (h' : DeclarationLine d') (heq : d.outline depth ++ more = d'.outline depth ++ more') :
    d.name = d'.name ∧ d.type = d'.type ∧ d.initial = d'.initial ∧ more = more' := by
  have hcolon (text : String) : StopsWord (" : " ++ text) :=
    .of_head (c := ' ') (by simp) (by decide)
  rw [VarDecl.outline_eq, VarDecl.outline_eq] at heq
  obtain ⟨-, htail, hmore⟩ := h.isLine.inj h'.isLine heq
  have hname := word_append_inj h.name (hcolon _) h'.name (hcolon _)
    ((String.append_right_inj _).1 htail)
  have htype := word_append_inj h.type h.stops h'.type h'.stops
    ((String.append_right_inj _).1 hname.2)
  exact ⟨hname.1, htype.1, htype.2, hmore⟩

theorem empty_ne_assigned (value : String) : "" ≠ " = " ++ value := by
  intro h
  have hhead := congrArg (·.toList.head?) h
  simp at hhead

theorem Declaration.init_eq {d d' : VarDecl Extent} (h : Declaration ts d)
    (hts : ∀ t ∈ ts, Lexed t) (h' : Declaration us d') (hus : ∀ t ∈ us, Lexed t)
    (heq : d.initial = d'.initial) : d.init.map Expr.shape = d'.init.map Expr.shape := by
  cases h with
  | plain =>
    cases h' with
    | plain => rfl
    | initial => exact absurd heq (empty_ne_assigned _)
  | initial _ _ _ _ _ h =>
    cases h' with
    | plain => exact absurd heq.symm (empty_ne_assigned _)
    | initial _ _ _ _ _ h' =>
      simp only [List.forall_mem_cons] at hts hus
      exact congrArg some (h.shape_eq h' hts.2.2.2.2.2 hus.2.2.2.2.2
        ((String.append_right_inj _).1 heq))

theorem Declarations.outline_inj {ds ds' : List (VarDecl Extent)} (h : Declarations ts ds)
    (hts : ∀ t ∈ ts, Lexed t) (h' : Declarations us ds') (hus : ∀ t ∈ us, Lexed t)
    (hmore : lineStart more ≠ (2 * depth, "var".toList))
    (hmore' : lineStart more' ≠ (2 * depth, "var".toList))
    (heq : String.join (ds.map (VarDecl.outline depth)) ++ more =
      String.join (ds'.map (VarDecl.outline depth)) ++ more') :
    ds.map (VarDecl.map fun _ ↦ ()) = ds'.map (VarDecl.map fun _ ↦ ()) ∧ more = more' := by
  induction h generalizing us ds' with
  | nil =>
    cases h' with
    | nil => exact ⟨rfl, (String.append_right_inj _).1 heq⟩
    | cons h' hs' =>
      rw [List.forall_mem_append] at hus
      have hvar := (h'.declarationLine hus.1).isLine
      rw [List.map_nil, String.join_nil, String.empty_append, List.map_cons, String.join_cons,
        String.append_assoc, VarDecl.outline_eq] at heq
      rw [heq, hvar.lineStart_eq] at hmore
      exact absurd rfl hmore
  | cons h hs ih =>
    rw [List.forall_mem_append] at hts
    have hdeclares := h.declarationLine hts.1
    rw [List.map_cons, String.join_cons, String.append_assoc] at heq
    cases h' with
    | nil =>
      rw [List.map_nil, String.join_nil, String.empty_append, VarDecl.outline_eq] at heq
      rw [← heq, hdeclares.isLine.lineStart_eq] at hmore'
      exact absurd rfl hmore'
    | cons h' hs' =>
      rw [List.forall_mem_append] at hus
      rw [List.map_cons, String.join_cons, String.append_assoc] at heq
      obtain ⟨hname, htype, hinitial, hrest⟩ := hdeclares.inj (h'.declarationLine hus.1) heq
      have hinit := h.init_eq hts.1 h' hus.1 hinitial
      have hothers := ih hts.2 hs' hus.2 hrest
      refine ⟨?_, hothers.2⟩
      rw [List.map_cons, List.map_cons, hothers.1, VarDecl.map, VarDecl.map, hname, htype]
      exact congrArg (fun init ↦ VarDecl.mk () _ _ init :: _) hinit

theorem Parts.outline_inj {vars vars' : VarBlock Extent} {block block' : Block Extent}
    {note note' : Extent} (h : Parts ts next vars block) (hts : ∀ t ∈ ts, Lexed t)
    (h' : Parts us next' vars' block') (hus : ∀ t ∈ us, Lexed t) (hmore : EndsBlock depth more)
    (hmore' : EndsBlock depth more')
    (heq : Body.outline depth ⟨note, vars, block⟩ ++ more =
      Body.outline depth ⟨note', vars', block'⟩ ++ more') :
    Body.map (fun _ ↦ ()) ⟨note, vars, block⟩ = Body.map (fun _ ↦ ()) ⟨note', vars', block'⟩ ∧
      more = more' := by
  cases h with
  | mk hd hs =>
    cases h' with
    | mk hd' hs' =>
      rw [List.forall_mem_append] at hts hus
      simp only [Body.outline, Block.outline, String.append_assoc] at heq
      have hdecls := hd.outline_inj hts.1 hd' hus.1
        (hs.lineStart_ne hts.2 .varWord (by decide) rfl hmore)
        (hs'.lineStart_ne hus.2 .varWord (by decide) rfl hmore') heq
      have hstmts := hs.outline_inj hts.2 hs' hus.2 hmore hmore' hdecls.2
      refine ⟨?_, hstmts.2⟩
      simp only [Body.map, VarBlock.map, Block.map, hdecls.1, hstmts.1]

/-! ## Functions -/

theorem Parameter.outline_inj {p p' : Param Extent} (h : Parameter ts p) (hts : ∀ t ∈ ts, Lexed t)
    (h' : Parameter us p') (hus : ∀ t ∈ us, Lexed t) (hmore : StopsWord more)
    (hmore' : StopsWord more') (heq : p.outline ++ more = p'.outline ++ more') :
    p.map (fun _ ↦ ()) = p'.map (fun _ ↦ ()) ∧ more = more' := by
  have hcolon (text : String) : StopsWord (": " ++ text) :=
    .of_head (c := ':') (by simp) (by decide)
  cases h with
  | mk hn hc ht =>
    cases h' with
    | mk hn' hc' ht' =>
      simp only [List.forall_mem_cons] at hts hus
      simp only [Param.outline, String.append_assoc] at heq
      have hname := word_append_inj (hts.1.isWord (by simp [hn])).1 (hcolon _)
        (hus.1.isWord (by simp [hn'])).1 (hcolon _) heq
      have htype := word_append_inj (hts.2.2.1.isWord (by simp [ht])).1 hmore
        (hus.2.2.1.isWord (by simp [ht'])).1 hmore' ((String.append_right_inj _).1 hname.2)
      exact ⟨congrArg₂ (Param.mk ()) hname.1 htype.1, htype.2⟩

theorem stopsWord_comma (text : String) : StopsWord (", " ++ text) :=
  .of_head (c := ',') (by simp) (by decide)

theorem stopsWord_close (text : String) : StopsWord (")" ++ text) :=
  .of_head (c := ')') (by simp) (by decide)

theorem close_ne_comma (text text' : String) : ")" ++ text ≠ ", " ++ text' := by
  intro h
  have hhead := congrArg (·.toList.head?) h
  simp at hhead

theorem ParameterList.map_ne_nil {ps : List (Param Extent)} (h : ParameterList ts ps) :
    ps.map Param.outline ≠ [] := by
  cases h <;> simp

theorem ParameterList.outline_inj {ps ps' : List (Param Extent)} (h : ParameterList ts ps)
    (hts : ∀ t ∈ ts, Lexed t) (h' : ParameterList us ps') (hus : ∀ t ∈ us, Lexed t)
    (heq : ", ".intercalate (ps.map Param.outline) ++ (")" ++ more) =
      ", ".intercalate (ps'.map Param.outline) ++ (")" ++ more')) :
    ps.map (Param.map fun _ ↦ ()) = ps'.map (Param.map fun _ ↦ ()) ∧ more = more' := by
  induction h generalizing us ps' with
  | last h hr =>
    rw [List.forall_mem_append] at hts
    rw [List.map_singleton, String.intercalate_singleton] at heq
    cases h' with
    | last h' hr' =>
      rw [List.forall_mem_append] at hus
      rw [List.map_singleton, String.intercalate_singleton] at heq
      have hparam := h.outline_inj hts.1 h' hus.1 (stopsWord_close _) (stopsWord_close _) heq
      exact ⟨congrArg ([·]) hparam.1, (String.append_right_inj _).1 hparam.2⟩
    | more h' hc' hs' =>
      rw [List.forall_mem_append] at hus
      rw [List.map_cons, String.intercalate_cons_of_ne_nil hs'.map_ne_nil, String.append_assoc,
        String.append_assoc] at heq
      have hparam := h.outline_inj hts.1 h' hus.1 (stopsWord_close _) (stopsWord_comma _) heq
      exact absurd hparam.2 (close_ne_comma _ _)
  | more h hc hs ih =>
    rw [List.forall_mem_append, List.forall_mem_cons] at hts
    rw [List.map_cons, String.intercalate_cons_of_ne_nil hs.map_ne_nil, String.append_assoc,
      String.append_assoc] at heq
    cases h' with
    | last h' hr' =>
      rw [List.forall_mem_append] at hus
      rw [List.map_singleton, String.intercalate_singleton] at heq
      have hparam := h.outline_inj hts.1 h' hus.1 (stopsWord_comma _) (stopsWord_close _) heq
      exact absurd hparam.2.symm (close_ne_comma _ _)
    | more h' hc' hs' =>
      rw [List.forall_mem_append, List.forall_mem_cons] at hus
      rw [List.map_cons, String.intercalate_cons_of_ne_nil hs'.map_ne_nil, String.append_assoc,
        String.append_assoc] at heq
      have hparam := h.outline_inj hts.1 h' hus.1 (stopsWord_comma _) (stopsWord_comma _) heq
      have hothers := ih hts.2.2 hs' hus.2.2 ((String.append_right_inj _).1 hparam.2)
      exact ⟨congrArg₂ List.cons hparam.1 hothers.1, hothers.2⟩

theorem not_stopsWord {word : String} (h : IsWord word.toList) (more : String) :
    ¬ StopsWord (word ++ more) := by
  intro hstops
  cases hlist : word.toList with
  | nil =>
    rw [hlist] at h
    exact h
  | cons c cs =>
    have hpart : isWordPart c = true := h.parts c (by simp [hlist])
    have hother : isWordPart c = false := hstops c (by simp [hlist])
    rw [hpart] at hother
    cases hother

theorem Parameter.not_stopsWord {p : Param Extent} (h : Parameter ts p)
    (hts : ∀ t ∈ ts, Lexed t) (more : String) : ¬ StopsWord (p.outline ++ more) := by
  cases h with
  | mk hn hc ht =>
    rw [List.forall_mem_cons] at hts
    rw [Param.outline, String.append_assoc, String.append_assoc]
    exact Grammar.not_stopsWord (hts.1.isWord (by simp [hn])).1 _

/-- A parenthesis is closed at once or behind a first parameter. -/
theorem ParameterList.close_ne {ps : List (Param Extent)} (h : ParameterList ts ps)
    (hts : ∀ t ∈ ts, Lexed t) :
    ")" ++ more ≠ ", ".intercalate (ps.map Param.outline) ++ (")" ++ more') := by
  intro heq
  have hstops := heq ▸ stopsWord_close more
  cases h with
  | last h hr =>
    rw [List.forall_mem_append] at hts
    rw [List.map_singleton, String.intercalate_singleton] at hstops
    exact h.not_stopsWord hts.1 _ hstops
  | more h hc hs =>
    rw [List.forall_mem_append] at hts
    rw [List.map_cons, String.intercalate_cons_of_ne_nil hs.map_ne_nil, String.append_assoc,
      String.append_assoc] at hstops
    exact h.not_stopsWord hts.1 _ hstops

theorem Parameters.outline_inj {ps ps' : List (Param Extent)} (h : Parameters ts ps)
    (hts : ∀ t ∈ ts, Lexed t) (h' : Parameters us ps') (hus : ∀ t ∈ us, Lexed t)
    (heq : ", ".intercalate (ps.map Param.outline) ++ (")" ++ more) =
      ", ".intercalate (ps'.map Param.outline) ++ (")" ++ more')) :
    ps.map (Param.map fun _ ↦ ()) = ps'.map (Param.map fun _ ↦ ()) ∧ more = more' := by
  cases h with
  | none =>
    rw [List.map_nil, String.intercalate_nil, String.empty_append] at heq
    cases h' with
    | none =>
      rw [List.map_nil, String.intercalate_nil, String.empty_append] at heq
      exact ⟨rfl, (String.append_right_inj _).1 heq⟩
    | some h' => exact absurd heq (h'.close_ne hus)
  | some h =>
    cases h' with
    | none =>
      rw [List.map_nil, String.intercalate_nil, String.empty_append] at heq
      exact absurd heq.symm (h.close_ne hts)
    | some h' => exact h.outline_inj hts h' hus heq

/-- The return type that is shown. -/
def shownType (returns : String) : String := if Text.isAllBlank returns then "Void" else returns

theorem isWord_void : IsWord "Void".toList := by
  simp [Lexer.IsWord, Lexer.IsRun]
  decide

theorem shownType_of_isWord {type : String} (h : IsWord type.toList) : shownType type = type := by
  have hblank : ¬ Text.isAllBlank type = true := by
    intro hall
    rw [Text.isAllBlank, List.all_eq_true] at hall
    cases hlist : type.toList with
    | nil =>
      rw [hlist] at h
      exact h
    | cons c cs =>
      have hc : c ∈ type.toList := by simp [hlist]
      have hpart := h.parts c hc
      rw [Lexer.isWordPart_of_isBlank (hall c hc)] at hpart
      cases hpart
  rw [shownType, if_neg hblank]

theorem ReturnType.isWord {returns : String} (h : ReturnType ts returns)
    (hts : ∀ t ∈ ts, Lexed t) : IsWord (shownType returns).toList := by
  cases h with
  | none => exact isWord_void
  | some hc ht =>
    simp only [List.forall_mem_cons] at hts
    have hword := (hts.2.1.isWord (by simp [ht])).1
    rwa [shownType_of_isWord hword]

/-- No program writes the type that is shown where none is written. -/
theorem ReturnType.shownType_inj {returns returns' : String} (h : ReturnType ts returns)
    (hts : ∀ t ∈ ts, Lexed t) (h' : ReturnType us returns') (hus : ∀ t ∈ us, Lexed t)
    (heq : shownType returns = shownType returns') : returns = returns' := by
  have hvoid : Kind.ofWord "Void" ≠ .type := by decide
  cases h with
  | none =>
    cases h' with
    | none => rfl
    | some hc' ht' =>
      simp only [List.forall_mem_cons] at hus
      have hword' := hus.2.1.isWord (by simp [ht'])
      rw [shownType_of_isWord hword'.1] at heq
      rw [← heq, ht'] at hword'
      exact absurd hword'.2 hvoid
  | some hc ht =>
    simp only [List.forall_mem_cons] at hts
    have hword := hts.2.1.isWord (by simp [ht])
    rw [shownType_of_isWord hword.1] at heq
    cases h' with
    | none =>
      rw [heq, ht] at hword
      exact absurd hword.2 hvoid
    | some hc' ht' =>
      simp only [List.forall_mem_cons] at hus
      rwa [shownType_of_isWord (hus.2.1.isWord (by simp [ht'])).1] at heq

theorem outline_function (f : FuncDef Extent) (more : String) :
    f.outline ++ more =
      "func " ++ (f.name ++ ("(" ++ (", ".intercalate (f.params.map Param.outline) ++
        (")" ++ (" -> " ++ (shownType f.returns ++
          (":\n" ++ (f.body.outline 1 ++ ("\n" ++ more))))))))) := by
  have hclose : ") -> " = ")" ++ " -> " := by simp
  simp only [FuncDef.outline, hclose, String.append_assoc]
  rfl

theorem endsBlock_newline (more : String) : EndsBlock 1 ("\n" ++ more) := by
  simp [EndsBlock, lineStart]

theorem FunctionBody.outline_inj {b b' : Body Extent} (h : FunctionBody ts b)
    (hts : ∀ t ∈ ts, Lexed t) (h' : FunctionBody us b') (hus : ∀ t ∈ us, Lexed t)
    (heq : b.outline 1 ++ ("\n" ++ more) = b'.outline 1 ++ ("\n" ++ more')) :
    b.map (fun _ ↦ ()) = b'.map (fun _ ↦ ()) ∧ more = more' := by
  cases h with
  | mk hl h hr =>
    cases h' with
    | mk hl' h' hr' =>
      rw [List.forall_mem_cons, List.forall_mem_append] at hts hus
      have hbody := h.outline_inj hts.2.1 h' hus.2.1 (endsBlock_newline _) (endsBlock_newline _) heq
      exact ⟨hbody.1, (String.append_right_inj _).1 hbody.2⟩

theorem Function.outline_inj {f f' : FuncDef Extent} (h : Function ts f) (hts : ∀ t ∈ ts, Lexed t)
    (h' : Function us f') (hus : ∀ t ∈ us, Lexed t)
    (heq : f.outline ++ more = f'.outline ++ more') :
    f.map (fun _ ↦ ()) = f'.map (fun _ ↦ ()) ∧ more = more' := by
  have hopen (text : String) : StopsWord ("(" ++ text) := .of_head (c := '(') (by simp) (by decide)
  have hcolon (text : String) : StopsWord (":\n" ++ text) :=
    .of_head (c := ':') (by simp) (by decide)
  rw [outline_function, outline_function, String.append_right_inj] at heq
  cases h with
  | mk hw hn hl hp hr hb =>
    cases h' with
    | mk hw' hn' hl' hp' hr' hb' =>
      simp only [List.forall_mem_cons, List.forall_mem_append] at hts hus
      have hname := word_append_inj (hts.2.1.isWord (by simp [hn])).1 (hopen _)
        (hus.2.1.isWord (by simp [hn'])).1 (hopen _) heq
      have hparams := hp.outline_inj hts.2.2.2.1.1 hp' hus.2.2.2.1.1
        ((String.append_right_inj _).1 hname.2)
      have htype := word_append_inj (hr.isWord hts.2.2.2.1.2) (hcolon _)
        (hr'.isWord hus.2.2.2.1.2) (hcolon _) ((String.append_right_inj _).1 hparams.2)
      have hreturns := hr.shownType_inj hts.2.2.2.1.2 hr' hus.2.2.2.1.2 htype.1
      have hbody := hb.outline_inj hts.2.2.2.2 hb' hus.2.2.2.2
        ((String.append_right_inj _).1 htype.2)
      refine ⟨?_, hbody.2⟩
      simp only [FuncDef.map, hname.1, hparams.1, hreturns, hbody.1]

theorem Functions.outline_inj {fs fs' : List (FuncDef Extent)} (h : Functions ts fs)
    (hts : ∀ t ∈ ts, Lexed t) (h' : Functions us fs') (hus : ∀ t ∈ us, Lexed t)
    (heq : String.join (fs.map FuncDef.outline) ++ ("main:\n" ++ more) =
      String.join (fs'.map FuncDef.outline) ++ ("main:\n" ++ more')) :
    fs.map (FuncDef.map fun _ ↦ ()) = fs'.map (FuncDef.map fun _ ↦ ()) ∧ more = more' := by
  have hmain (f : FuncDef Extent) (text text' : String) :
      "main:\n" ++ text ≠ f.outline ++ text' := by
    intro h
    rw [outline_function] at h
    have hhead := congrArg (·.toList.head?) h
    simp at hhead
  induction h generalizing us fs' with
  | nil =>
    cases h' with
    | nil => exact ⟨rfl, (String.append_right_inj _).1 ((String.append_right_inj _).1 heq)⟩
    | cons h' hs' =>
      rw [List.map_nil, String.join_nil, String.empty_append, List.map_cons, String.join_cons,
        String.append_assoc] at heq
      exact absurd heq (hmain _ _ _)
  | cons h hs ih =>
    rw [List.forall_mem_append] at hts
    rw [List.map_cons, String.join_cons, String.append_assoc] at heq
    cases h' with
    | nil =>
      rw [List.map_nil, String.join_nil, String.empty_append] at heq
      exact absurd heq.symm (hmain _ _ _)
    | cons h' hs' =>
      rw [List.forall_mem_append] at hus
      rw [List.map_cons, String.join_cons, String.append_assoc] at heq
      have hfirst := h.outline_inj hts.1 h' hus.1 heq
      have hothers := ih hts.2 hs' hus.2 hfirst.2
      exact ⟨congrArg₂ List.cons hfirst.1 hothers.1, hothers.2⟩

theorem endsBlock_empty : EndsBlock 1 "" := by
  simp [EndsBlock, lineStart]

/-- Programs with the same outline have the same shape. -/
theorem Program.shape_eq {s s' : Script Extent} (h : Program ts s)
    (hts : ∀ t ∈ ts.dropLast, Lexed t) (h' : Program us s')
    (hus : ∀ t ∈ us.dropLast, Lexed t) (heq : s.outline = s'.outline) :
    s.shape = s'.shape := by
  cases h with
  | mk hf hm hstop =>
    cases h' with
    | mk hf' hm' hstop' =>
      rw [List.dropLast_concat, List.forall_mem_append] at hts hus
      have hfuncs := hf.outline_inj hts.1 hf' hus.1 heq
      have hmain := hm.outline_inj hts.2 hm' hus.2 endsBlock_empty endsBlock_empty
        (congrArg (· ++ "") hfuncs.2)
      simp only [Script.shape, Script.map, hfuncs.1]
      exact congrArg (fun main ↦ Script.mk () _ (some main)) hmain.1

end Grammar

theorem Script.exists_program {source : String} {s : Script Tag} (h : Script.parse source = .ok s) :
    ∃ ts, Grammar.Program ts (s.map Tag.extent) ∧ ∀ t ∈ ts.dropLast, Lexer.Lexed t := by
  obtain ⟨tree, htree, rfl⟩ := Script.parse_eq_ok_iff.1 h
  refine ⟨Lexer.allTokens source, by rwa [Script.map_number], ?_⟩
  rw [Lexer.allTokens, List.dropLast_concat]
  exact Lexer.lexed_of_mem_scan

/-- The outline of a program tells the program. Programs that were read have the same outline if and
only if they are the same but for the numbers, places and texts of their nodes. -/
theorem outline_tells_program {source source' : String} {s s' : Script Tag}
    (h : Script.parse source = .ok s) (h' : Script.parse source' = .ok s') :
    s.outline = s'.outline ↔ s.shape = s'.shape := by
  obtain ⟨ts, hprogram, hts⟩ := Script.exists_program h
  obtain ⟨us, hprogram', hus⟩ := Script.exists_program h'
  constructor
  · intro houtline
    calc
      s.shape = (s.map Tag.extent).shape := (Script.map_map Tag.extent (fun _ ↦ ()) s).symm
      _ = (s'.map Tag.extent).shape := by
        apply hprogram.shape_eq hts hprogram' hus
        rw [Script.outline_map, Script.outline_map, houtline]
      _ = s'.shape := Script.map_map Tag.extent (fun _ ↦ ()) s'
  · intro hshape
    calc
      s.outline = s.shape.outline := (Script.outline_map _ s).symm
      _ = s'.shape.outline := by rw [hshape]
      _ = s'.outline := Script.outline_map _ s'

/-- The other branch belongs to the inner condition, however the program is laid out. -/
theorem outline_tells_program_nested :
    ∃ s s', Script.parse "if a \x7b if b \x7b \x7d else \x7b f() \x7d \x7d" = .ok s ∧
      Script.parse "if a\x7bif b\x7b\x7d\n  else \x7bf ( )\x7d\x7d // end" = .ok s' ∧
      s.outline = "main:\n  if a:\n    if b:\n    else:\n      f()\n" ∧ s.shape = s'.shape := by
  obtain ⟨s, hs, houtline⟩ : ∃ s,
      Script.parse "if a \x7b if b \x7b \x7d else \x7b f() \x7d \x7d" = .ok s ∧
      s.outline = "main:\n  if a:\n    if b:\n    else:\n      f()\n" := by
    refine ⟨?_, ?parse, ?_⟩
    case parse =>
      cbv
      rfl
    cbv
  obtain ⟨s', hs', houtline'⟩ : ∃ s,
      Script.parse "if a\x7bif b\x7b\x7d\n  else \x7bf ( )\x7d\x7d // end" = .ok s ∧
      s.outline = "main:\n  if a:\n    if b:\n    else:\n      f()\n" := by
    refine ⟨?_, ?parse, ?_⟩
    case parse =>
      cbv
      rfl
    cbv
  exact ⟨s, s', hs, hs', houtline,
    (outline_tells_program hs hs').1 (houtline.trans houtline'.symm)⟩

end ScriptAnalysis
