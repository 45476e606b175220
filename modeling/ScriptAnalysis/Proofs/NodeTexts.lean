import ScriptAnalysis.Proofs.Numbers
import ScriptAnalysis.Proofs.Spelling

/-!
# The texts of nodes

Every node of a tree was read from a run of the tokens of the tree, and its text is made of the
lexemes of that run. The text of an expression says whether it is an expression in parentheses, and
no other node has a text that begins with a parenthesis. So an expression in parentheses shares its
text with expressions in parentheses only.
-/

namespace ScriptAnalysis

theorem Extent.text_ofTokens (next : Token) (used : List Token) :
    (Extent.ofTokens next used).text = String.join (used.map Token.lexeme) := by
  cases used <;> rfl

namespace Grammar

/-- Whether a row of tokens does not begin with an opening parenthesis. -/
def Plain (ts : List Token) : Prop := ∀ t ∈ ts.head?, t.kind ≠ .leftParen

/-- Whether a node was read from a row of tokens. Of nodes other than expressions this is only said
as far as their text goes. -/
def Spells (ts : List Token) : Node Extent → Prop
  | .expr e => Expression 3 ts e
  | node => node.note.text = String.join (ts.map Token.lexeme) ∧ Plain ts

/-- Whether nodes were each read from a run of some tokens. -/
def Covers (ts : List Token) (nodes : List (Node Extent)) : Prop :=
  ∀ node ∈ nodes, ∃ us, us <:+: ts ∧ Spells us node

variable {ts us : List Token} {t : Token} {nodes nodes' : List (Node Extent)}

theorem Plain.nil : Plain [] := by
  simp [Plain]

theorem Plain.cons {kind : Kind} (h : t.kind = kind) (hkind : kind ≠ .leftParen) (ts : List Token) :
    Plain (t :: ts) := by
  rintro _ ⟨⟩
  exact h ▸ hkind

theorem Plain.append (hts : Plain ts) (hus : Plain us) : Plain (ts ++ us) := by
  cases ts with
  | nil => exact hus
  | cons t ts => exact hts

theorem Statements.plain {next : Token} {ss : List (Stmt Extent)} (h : Statements ts next ss) :
    Plain ts := by
  cases h with
  | nil => exact .nil
  | cons h hs =>
    obtain ⟨t, more, rfl, ht⟩ := h.starts
    rintro _ ⟨⟩ hkind
    rw [hkind] at ht
    cases ht

theorem Declarations.plain {ds : List (VarDecl Extent)} (h : Declarations ts ds) : Plain ts := by
  cases h with
  | nil => exact .nil
  | cons h hs =>
    obtain ⟨t, more, rfl, ht⟩ := h.starts
    exact .cons ht (by decide) _

theorem Parts.plain {next : Token} {vars : VarBlock Extent} {block : Block Extent}
    (h : Parts ts next vars block) : Plain ts := by
  cases h with
  | mk hd hs => exact hd.plain.append hs.plain

theorem Functions.plain {fs : List (FuncDef Extent)} (h : Functions ts fs) : Plain ts := by
  cases h with
  | nil => exact .nil
  | cons h hs =>
    cases h with
    | mk hw => exact .cons hw (by decide) _

namespace Covers

theorem nil (ts : List Token) : Covers ts [] := by
  simp [Covers]

theorem mono (h : Covers us nodes) (hsub : us <:+: ts) : Covers ts nodes := by
  intro node hnode
  obtain ⟨vs, hvs, hspells⟩ := h node hnode
  exact ⟨vs, hvs.trans hsub, hspells⟩

theorem left (h : Covers ts nodes) (us : List Token) : Covers (ts ++ us) nodes :=
  h.mono (List.prefix_append ts us).isInfix

theorem right (h : Covers us nodes) (ts : List Token) : Covers (ts ++ us) nodes :=
  h.mono (List.suffix_append ts us).isInfix

theorem tail (h : Covers ts nodes) (t : Token) : Covers (t :: ts) nodes :=
  h.right [t]

theorem append (h : Covers ts nodes) (h' : Covers ts nodes') : Covers ts (nodes ++ nodes') :=
  List.forall_mem_append.2 ⟨h, h'⟩

theorem visit {node : Node Extent} (h : Spells ts node) (hbelow : Covers ts nodes) :
    Covers ts (Node.visit (fun _ ↦ false) node nodes) :=
  List.forall_mem_cons.2 ⟨⟨ts, List.infix_rfl, h⟩, hbelow⟩

end Covers

theorem Expression.lift {level level' : Nat} {e : Expr Extent} (h : Expression level ts e)
    (hle : level ≤ level') : Expression level' ts e := by
  obtain ⟨more, rfl⟩ := Nat.exists_eq_add_of_le hle
  clear hle
  induction more with
  | zero => exact h
  | succ more ih => exact .operand ih

theorem Expression.raise {level : Nat} {e : Expr Extent} (h : Expression level ts e)
    (hlevel : level ≤ 3) : Expression 3 ts e :=
  h.lift hlevel

theorem Unary.raise {e : Expr Extent} (h : Unary ts e) : Expression 3 ts e :=
  (Expression.unary h).raise (by decide)

theorem Call.raise {note : Extent} {callee : String} {args : List (Expr Extent)}
    (h : Call ts note callee args) : Expression 3 ts (.call note callee args) :=
  (Unary.primary (.call h)).raise

mutual

theorem Expression.covers_of_le {level : Nat} {ts : List Token} {e : Expr Extent} :
    Expression level ts e → level ≤ 3 → Covers ts (e.walk fun _ ↦ false)
  | .unary h, _ => h.covers
  | .operand h, hlevel => h.covers_of_le (Nat.le_of_succ_le hlevel)
  | .operation hl hop hat hr, hlevel =>
    have hleft := (hl.covers_of_le hlevel).left _
    have hright := ((hr.covers_of_le (Nat.le_of_succ_le hlevel)).tail _).right _
    .visit ((Expression.operation hl hop hat hr).raise hlevel) (hleft.append hright)

theorem Unary.covers {ts : List Token} {e : Expr Extent} :
    Unary ts e → Covers ts (e.walk fun _ ↦ false)
  | .negate ht h => .visit (Unary.negate ht h).raise (h.covers.tail _)
  | .primary h => h.covers

theorem Primary.covers {ts : List Token} {e : Expr Extent} :
    Primary ts e → Covers ts (e.walk fun _ ↦ false)
  | .int ht => .visit (Unary.primary (.int ht)).raise (.nil _)
  | .string ht => .visit (Unary.primary (.string ht)).raise (.nil _)
  | .true ht => .visit (Unary.primary (.true ht)).raise (.nil _)
  | .false ht => .visit (Unary.primary (.false ht)).raise (.nil _)
  | .ident ht => .visit (Unary.primary (.ident ht)).raise (.nil _)
  | .call h => h.covers
  | .parens hl h hr =>
    .visit (Unary.primary (.parens hl h hr)).raise
      (((h.covers_of_le (Nat.le_refl 3)).left _).tail _)

theorem Call.covers {ts : List Token} {note : Extent} {callee : String}
    {args : List (Expr Extent)} :
    Call ts note callee args → Covers ts ((Expr.call note callee args).walk fun _ ↦ false)
  | .mk hn hl h => .visit (Call.mk hn hl h).raise ((h.covers.tail _).tail _)

theorem Arguments.covers {ts : List Token} {args : List (Expr Extent)} :
    Arguments ts args → Covers ts (Expr.walkAll (fun _ ↦ false) args)
  | .none _ => .nil _
  | .some h => h.covers

theorem ArgumentList.covers {ts : List Token} {args : List (Expr Extent)} :
    ArgumentList ts args → Covers ts (Expr.walkAll (fun _ ↦ false) args)
  | .last h _ => ((h.covers_of_le (Nat.le_refl 3)).left _).append (.nil _)
  | .more h _ hs => ((h.covers_of_le (Nat.le_refl 3)).left _).append ((hs.covers.tail _).right _)

end

theorem Expression.covers {e : Expr Extent} (h : Expression 3 ts e) :
    Covers ts (e.walk fun _ ↦ false) :=
  h.covers_of_le (Nat.le_refl 3)

mutual

theorem Statement.covers {ts : List Token} {next : Token} {s : Stmt Extent} :
    Statement ts next s → Covers ts (s.walk fun _ ↦ false)
  | .assign hn _ h =>
    .visit ⟨rfl, .cons hn (by decide) _⟩ ((h.covers.tail _).tail _)
  | .call (.mk hn hl h) =>
    .visit ⟨rfl, .cons hn (by decide) _⟩ (Call.mk hn hl h).covers
  | .loop hw h hb =>
    .visit ⟨rfl, .cons hw (by decide) _⟩
      (((h.covers.left _).append (hb.covers.right _)).tail _)
  | .branch hw h ht =>
    .visit ⟨rfl, .cons hw (by decide) _⟩
      (((h.covers.left _).append (ht.covers.right _)).tail _)
  | .branchElse hw h ht _ hf =>
    have hboth := (h.covers.left _).append (ht.covers.right _)
    .visit ⟨rfl, .cons hw (by decide) _⟩
      (((hboth.left _).append ((hf.covers.tail _).right _)).tail _)
  | .print hw h => .visit ⟨rfl, .cons hw (by decide) _⟩ (h.covers.tail _)
  | .ret hw _ => .visit ⟨rfl, .cons hw (by decide) _⟩ (.nil _)
  | .retValue hw _ h => .visit ⟨rfl, .cons hw (by decide) _⟩ (h.covers.tail _)

theorem Statements.covers {ts : List Token} {next : Token} {ss : List (Stmt Extent)} :
    Statements ts next ss → Covers ts (Stmt.walkAll (fun _ ↦ false) ss)
  | .nil => .nil _
  | .cons h hs => (h.covers.left _).append (hs.covers.right _)

theorem BraceBlock.covers {ts : List Token} {b : Block Extent} :
    BraceBlock ts b → Covers ts (b.walk fun _ ↦ false)
  | .mk hl h _ => .visit ⟨rfl, .cons hl (by decide) _⟩ ((h.covers.left _).tail _)

end

theorem Declaration.covers {d : VarDecl Extent} (h : Declaration ts d) :
    Covers ts (d.walk fun _ ↦ false) := by
  cases h with
  | plain hw => exact .visit ⟨rfl, .cons hw (by decide) _⟩ (.nil _)
  | @initial word name colon type eq ts e hw _ _ _ _ h =>
    have hinit := h.covers.right [word, name, colon, type, eq]
    exact .visit ⟨rfl, .cons hw (by decide) _⟩ (hinit.append (.nil _))

theorem Declarations.covers {ts : List Token} {ds : List (VarDecl Extent)} :
    Declarations ts ds → Covers ts (ds.flatMap (VarDecl.walk fun _ ↦ false))
  | .nil => .nil _
  | .cons h hs => (h.covers.left _).append (hs.covers.right _)

theorem Parts.covers {next : Token} {vars : VarBlock Extent} {block : Block Extent}
    (h : Parts ts next vars block) :
    Covers ts (vars.walk (fun _ ↦ false) ++ block.walk fun _ ↦ false) := by
  cases h with
  | mk hd hs =>
    apply Covers.append
    · apply Covers.left
      exact .visit ⟨Extent.text_ofTokens _ _, hd.plain⟩ hd.covers
    · apply Covers.right
      exact .visit ⟨Extent.text_ofTokens _ _, hs.plain⟩ hs.covers

theorem FunctionBody.covers {body : Body Extent} (h : FunctionBody ts body) :
    Covers ts (Node.visit (fun _ ↦ false) (.body body) (body.walkParts fun _ ↦ false)) := by
  cases h with
  | mk hl h _ => exact .visit ⟨rfl, .cons hl (by decide) _⟩ ((h.covers.left _).tail _)

theorem Parameter.covers {p : Param Extent} (h : Parameter ts p) :
    Covers ts (Node.visit (fun _ ↦ false) (.param p) []) := by
  cases h with
  | mk hn => exact .visit ⟨rfl, .cons hn (by decide) _⟩ (.nil _)

theorem ParameterList.covers {ts : List Token} {ps : List (Param Extent)} :
    ParameterList ts ps →
      Covers ts (ps.flatMap fun p ↦ Node.visit (fun _ ↦ false) (.param p) [])
  | .last h _ => (h.covers.left _).append (.nil _)
  | .more h _ hs => (h.covers.left _).append ((hs.covers.tail _).right _)

theorem Function.covers {f : FuncDef Extent} (h : Function ts f) :
    Covers ts (f.walk fun _ ↦ false) := by
  cases h with
  | @mk word name l ts us vs ps returns body hw _ _ hp _ hb =>
    have hparams :
        Covers ts (ps.flatMap fun p ↦ Node.visit (fun _ ↦ false) (.param p) []) := by
      cases hp with
      | none => exact .nil _
      | some hp => exact hp.covers
    have hparts := ((hparams.left us).left vs).append (hb.covers.right (ts ++ us))
    exact .visit ⟨rfl, .cons hw (by decide) _⟩ (((hparts.tail _).tail _).tail _)

theorem Functions.covers {ts : List Token} {fs : List (FuncDef Extent)} :
    Functions ts fs → Covers ts (fs.flatMap (FuncDef.walk fun _ ↦ false))
  | .nil => .nil _
  | .cons h hs => (h.covers.left _).append (hs.covers.right _)

theorem Program.covers {s : Script Extent} (h : Program ts s) :
    Covers ts.dropLast (Node.script s).all := by
  cases h with
  | @mk ts us stop fs vars block hf hm hstop =>
    rw [List.dropLast_concat]
    apply Covers.visit
    · exact ⟨Extent.text_ofTokens _ _, hf.plain.append hm.plain⟩
    · apply Covers.append
      · exact hf.covers.left us
      · apply Covers.append _ (.nil _)
        apply Covers.right
        exact .visit ⟨Extent.text_ofTokens _ _, hm.plain⟩ hm.covers

theorem Standalone.covers {e : Expr Extent} (h : Standalone ts e) :
    Covers ts.dropLast (Node.expr e).all := by
  cases h with
  | mk h =>
    rw [List.dropLast_concat]
    exact h.covers

end Grammar

/-- Every node of a tree was read from a run of the tokens of the source. -/
theorem Node.ReadFrom.covers {source : String} {root : Node Tag} (h : root.ReadFrom source) :
    Grammar.Covers (Lexer.tokens source) (root.map Tag.extent).all := by
  have htokens : (Lexer.allTokens source).dropLast = Lexer.tokens source :=
    List.dropLast_concat
  rw [← htokens]
  cases h with
  | script h =>
    obtain ⟨tree, hprogram, rfl⟩ := Script.parse_eq_ok_iff.1 h
    rw [Node.map, Script.map_number]
    exact hprogram.covers
  | expr h =>
    obtain ⟨tree, hexpr, rfl⟩ := Expr.parse_eq_ok_iff.1 h
    rw [Node.map, Expr.map_number]
    exact hexpr.covers

/-! ## Parentheses -/

theorem Lexer.Lexed.munches {t : Token} (h : Lexer.Lexed t) :
    ∃ text, Lexer.Munches text t.kind t.lexeme.toList := by
  obtain ⟨c, rest, count, hpiece, hlexeme⟩ := h
  obtain ⟨kind, hkind, hmunches⟩ := Lexer.munches_piece (Lexer.not_beginsTrivia_of_piece hpiece)
  rw [hpiece] at hkind hmunches
  cases hkind
  rw [hlexeme]
  exact ⟨_, hmunches⟩

/-- An opening parenthesis is known by the character it begins with. -/
theorem Lexer.Lexed.kind_eq_leftParen_iff {t : Token} (h : Lexer.Lexed t) :
    t.kind = .leftParen ↔ t.lexeme.toList.head? = some '(' := by
  constructor
  · intro hkind
    obtain ⟨text, hmunches⟩ := h.munches
    rw [hkind] at hmunches
    generalize t.lexeme.toList = lexeme at hmunches
    cases hmunches with
    | word _ hword =>
      cases hword with
      | reserved hreserved => exact absurd hreserved (by decide)
    | symbol => rfl
  · intro hhead
    obtain ⟨c, rest, count, hpiece, hlexeme⟩ := h
    obtain rfl : c = '(' := by simpa [hlexeme] using hhead
    have hpair : Lexer.pair? '(' rest = none := by
      unfold Lexer.pair?
      split <;> rfl
    rw [Lexer.piece_other (Lexer.not_beginsTrivia_of_piece hpiece) (by decide) (by decide)
      (by decide), hpair] at hpiece
    have hkind : some Kind.leftParen = some t.kind := congrArg Prod.fst hpiece
    exact (Option.some.inj hkind).symm

/-- Whether a node is an expression in parentheses. -/
def Node.isParens {α : Type} : Node α → Bool
  | .expr (.parens _ _) => true
  | _ => false

theorem Node.isParens_iff {α : Type} {node : Node α} :
    node.isParens = true ↔ ∃ note inner, node = .expr (.parens note inner) := by
  constructor
  · intro h
    unfold Node.isParens at h
    split at h
    · exact ⟨_, _, rfl⟩
    · cases h
  · rintro ⟨note, inner, rfl⟩
    rfl

theorem Node.isParens_map {α β : Type} (f : α → β) (node : Node α) :
    (node.map f).isParens = node.isParens := by
  cases node with
  | expr e => cases e <;> rfl
  | _ => rfl

namespace Grammar

open Lexer (Lexed glued)

variable {ts us : List Token} {node node' : Node Extent}

theorem Spells.text (h : Spells ts node) :
    node.note.text = String.join (ts.map Token.lexeme) := by
  cases node with
  | expr e =>
    have he : Expression 3 ts e := h
    rw [Node.note, he.note_eq he.ne_nil]
    rfl
  | _ => exact h.1

theorem Spells.toList_text (h : Spells ts node) : node.note.text.toList = glued ts := by
  rw [h.text, String.toList_join, List.flatMap_map, glued]

theorem Expression.starts_of_parens {level : Nat} {ts : List Token} {note : Extent}
    {inner : Expr Extent} : Expression level ts (.parens note inner) →
      ∃ t more, ts = t :: more ∧ t.kind = .leftParen
  | .unary (.primary (.parens hl _ _)) => ⟨_, _, rfl, hl⟩
  | .operand h => h.starts_of_parens

/-- A text that begins with a parenthesis is the text of an expression. -/
theorem Spells.head?_text_ne (h : Spells ts node) (hts : ∀ t ∈ ts, Lexed t)
    (hnode : ∀ e, node ≠ .expr e) : node.note.text.toList.head? ≠ some '(' := by
  have hplain : Plain ts := by
    cases node with
    | expr e => exact absurd rfl (hnode e)
    | _ => exact h.2
  rw [h.toList_text]
  cases ts with
  | nil => simp [glued]
  | cons t ts =>
    have ht := hts t List.mem_cons_self
    intro hhead
    apply hplain t rfl
    rw [ht.kind_eq_leftParen_iff, ← hhead]
    obtain ⟨c, rest, count, -, hlexeme⟩ := ht
    simp [glued, hlexeme]

theorem Expression.head?_text_of_parens {note : Extent} {inner : Expr Extent}
    (h : Expression 3 ts (.parens note inner)) (hts : ∀ t ∈ ts, Lexed t) :
    note.text.toList.head? = some '(' := by
  have htext : note.text.toList = glued ts := h.toList_text
  obtain ⟨t, more, rfl, hkind⟩ := h.starts_of_parens
  have ht := hts t List.mem_cons_self
  rw [htext, ← ht.kind_eq_leftParen_iff.1 hkind]
  obtain ⟨c, rest, count, -, hlexeme⟩ := ht
  simp [glued, hlexeme]

theorem Spells.isParens_of_text_eq (h : Spells ts node) (h' : Spells us node')
    (hts : ∀ t ∈ ts, Lexed t) (hus : ∀ t ∈ us, Lexed t)
    (htext : node.note.text = node'.note.text) (hparens : node.isParens = true) :
    node'.isParens = true := by
  obtain ⟨note, inner, rfl⟩ := Node.isParens_iff.1 hparens
  have he : Expression 3 ts (.parens note inner) := h
  by_cases hexpr : ∃ e, node' = .expr e
  · obtain ⟨e, rfl⟩ := hexpr
    have heq := he.map_text_eq h' hts hus htext
    cases e with
    | parens => rfl
    | _ => cases heq
  · have hne := h'.head?_text_ne hus fun e hnode ↦ hexpr ⟨e, hnode⟩
    rw [← htext] at hne
    exact absurd (he.head?_text_of_parens hts) hne

end Grammar

theorem Node.ReadFrom.exists_spells {source : String} {root node : Node Tag}
    (h : root.ReadFrom source) (hnode : node ∈ root.all) :
    ∃ us, (∀ t ∈ us, Lexer.Lexed t) ∧ Grammar.Spells us (node.map Tag.extent) := by
  have hmem : node.map Tag.extent ∈ (root.map Tag.extent).all := by
    rw [Node.all_map]
    exact List.mem_map_of_mem hnode
  obtain ⟨us, hus, hspells⟩ := h.covers _ hmem
  exact ⟨us, fun t ht ↦ Lexer.lexed_of_mem_scan t (hus.subset ht), hspells⟩

/-- Nodes with the same text are both expressions in parentheses or neither is. -/
theorem Node.ReadFrom.isParens_eq {source : String} {root node node' : Node Tag}
    (h : root.ReadFrom source) (hnode : node ∈ root.all) (hnode' : node' ∈ root.all)
    (htext : node.note.text = node'.note.text) : node.isParens = node'.isParens := by
  obtain ⟨us, hus, hspells⟩ := h.exists_spells hnode
  obtain ⟨us', hus', hspells'⟩ := h.exists_spells hnode'
  have htext' : (node.map Tag.extent).note.text = (node'.map Tag.extent).note.text := by
    rw [Node.note_map, Node.note_map]
    exact htext
  rw [← Node.isParens_map Tag.extent node, ← Node.isParens_map Tag.extent node', Bool.eq_iff_iff]
  exact ⟨hspells.isParens_of_text_eq hspells' hus hus' htext',
    hspells'.isParens_of_text_eq hspells hus' hus htext'.symm⟩

end ScriptAnalysis
