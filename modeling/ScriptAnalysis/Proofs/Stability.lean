import ScriptAnalysis.Proofs.Answers
import ScriptAnalysis.Proofs.Insertion
import ScriptAnalysis.Proofs.Weakening

/-!
# What a session knows stays

The pieces of a session begin as their place demands, and each closes the braces that it opens. So a
piece that is added comes between functions and declarations, or declarations and statements, and
the program with it still has the functions and the variables it had. An expression that had a type
therefore has it still.
-/

namespace ScriptAnalysis

open Grammar (net)

namespace Lexer

theorem startsWith_of_map_bare {kind : Kind} {ts us : List Token}
    (h : ts.map Token.bare = us.map Token.bare) :
    Parser.startsWith kind ts = Parser.startsWith kind us := by
  have hhead (ts : List Token) :
      Parser.startsWith kind ts = (ts.map Token.bare).head?.any fun p ↦ p.1 = kind := by
    cases ts <;> rfl
  rw [hhead, hhead, h]

theorem startsWith_scan (kind : Kind) (here : Nat × Nat) (text : String) :
    Parser.startsWith kind (scan here text.toList) = Parser.startsWith kind (tokens text) :=
  startsWith_of_map_bare (map_bare_scan here (1, 1) text.toList)

theorem startsWith_tokens {kind : Kind} {piece : String} (h : firstKind piece ≠ kind) :
    Parser.startsWith kind (tokens piece) = false := by
  apply Parser.startsWith_eq_false
  intro t ht hkind
  obtain ⟨more, hmore⟩ := List.head?_eq_some_iff.1 ht
  rw [firstKind, hmore] at h
  exact h hkind

theorem exists_scan_cons {kind : Kind} {piece : String} (h : firstKind piece = kind)
    (hkind : kind ≠ .eof) (here : Nat × Nat) :
    ∃ v more, scan here piece.toList = v :: more ∧ v.kind = kind := by
  have hbare := map_bare_scan here (1, 1) piece.toList
  have hfirst : ((tokens piece).headD (endMark piece)).kind = kind := h
  cases htokens : tokens piece with
  | nil =>
    rw [htokens] at hfirst
    exact absurd hfirst.symm hkind
  | cons t ts =>
    have hscan : scan (1, 1) piece.toList = t :: ts := htokens
    rw [htokens] at hfirst
    rw [hscan] at hbare
    obtain ⟨v, more, hv, hbare, -⟩ := List.map_eq_cons_iff.1 hbare
    exact ⟨v, more, hv, (congrArg Prod.fst hbare).trans hfirst⟩

theorem net_tokens_intercalate {pieces : List String}
    (h : ∀ piece ∈ pieces, net (tokens piece) = 0) :
    net (tokens ("\n".intercalate pieces)) = 0 := by
  apply tokens_intercalate_induction (R := fun ts ↦ net ts = 0) rfl _ _ h
  · intro here here' text htext
    rw [← htext]
    exact Grammar.net_eq_of_map_bare (map_bare_scan here' here text)
  · intro ts us hts hus _
    rw [Grammar.net_append, hts, hus, Int.add_zero]

theorem startsWith_tokens_intercalate {kind : Kind} {pieces : List String}
    (h : ∀ piece ∈ pieces, firstKind piece ≠ kind) :
    Parser.startsWith kind (tokens ("\n".intercalate pieces)) = false := by
  have hpieces : ∀ piece ∈ pieces, Parser.startsWith kind (tokens piece) = false :=
    fun piece hpiece ↦ startsWith_tokens (h piece hpiece)
  apply tokens_intercalate_induction (R := fun ts ↦ Parser.startsWith kind ts = false) rfl _ _
    hpieces
  · intro here here' text htext
    rw [← htext]
    exact startsWith_of_map_bare (map_bare_scan here' here text)
  · intro ts us hts hus _
    exact Grammar.startsWith_append_eq_false hts hus

/-- The tokens of pieces with one more among them. -/
theorem exists_tokens_insert (front : List String) (piece : String) (back : List String) :
    ∃ here there here', tokens ("\n".intercalate (front ++ back)) =
        tokens ("\n".intercalate front) ++ scan here ("\n".intercalate back).toList ∧
      tokens ("\n".intercalate (front ++ piece :: back)) =
        tokens ("\n".intercalate front) ++ scan there piece.toList ++
          scan here' ("\n".intercalate back).toList := by
  obtain ⟨here, hold, -⟩ := tokens_intercalate_append front back
  obtain ⟨there, hpiece, -⟩ := tokens_intercalate_append front [piece]
  obtain ⟨here', hnew, -⟩ := tokens_intercalate_append (front ++ [piece]) back
  rw [String.intercalate_singleton] at hpiece
  rw [hpiece, List.append_assoc, List.singleton_append] at hnew
  exact ⟨here, there, here', hold, hnew⟩

end Lexer

/-- Whether a program has the functions of another and then perhaps more, and has the variables of
the other among its own. -/
structure Script.Extends {α : Type} (tree' tree : Script α) : Prop where
  funcs : tree.funcs <+: tree'.funcs
  decls : ∀ main, tree.main = some main → ∃ main', tree'.main = some main' ∧
    ∀ d ∈ main.vars.decls, ∃ d' ∈ main'.vars.decls, d'.name = d.name ∧ d'.type = d.type

theorem FuncDef.bindings_prefix {α : Type} {fs fs' : List (FuncDef α)} (h : fs <+: fs') :
    FuncDef.bindings fs <+: FuncDef.bindings fs' := by
  obtain ⟨more, rfl⟩ := h
  unfold FuncDef.bindings
  rw [List.map_append, List.map_append, List.zip_append (by simp)]
  exact List.prefix_append _ _

theorem Script.Extends.env_le {α : Type} {tree tree' : Script α} {Γ Γ' : Context}
    (h : tree'.Extends tree) (hΓ : tree.MainContext Γ) (hΓ' : tree'.MainContext Γ') :
    Γ.env.Le Γ'.env := by
  obtain ⟨main, hmain, hdeclares⟩ := hΓ
  obtain ⟨main', hmain', hdeclares'⟩ := hΓ'
  obtain ⟨_, hsame, hdecls⟩ := h.decls main hmain
  obtain rfl := Option.some.inj (hmain'.symm.trans hsame)
  exact hdeclares.env_le hdeclares' (FuncDef.bindings_prefix h.funcs) hdecls

namespace Session

/-- Whether the pieces of a session begin as their place demands, close the braces that they open,
and make up a valid program. -/
structure Orderly (s : Session) : Prop where
  valid : s.Valid
  funcs : ∀ piece ∈ s.funcs, Lexer.firstKind piece = .funcWord
  vars : ∀ piece ∈ s.vars, Lexer.firstKind piece = .varWord
  stmts : ∀ piece ∈ s.stmts, (Lexer.firstKind piece).isOpener = false
  closed : ∀ piece ∈ s.funcs ++ s.vars ++ s.stmts, net (Lexer.tokens piece) = 0

theorem orderly_empty (options : Options) : Orderly ⟨[], [], [], options⟩ :=
  ⟨valid_empty options, by simp, by simp, by simp, by simp⟩

variable {s : Session} {piece : String}

theorem Orderly.firstKind_ne (h : s.Orderly) {kind : Kind} (hkind : kind.isOpener = true) :
    ∀ piece ∈ s.stmts, Lexer.firstKind piece ≠ kind := by
  intro piece hpiece hfirst
  have hopener := h.stmts piece hpiece
  rw [hfirst, hkind] at hopener
  cases hopener

theorem extend_cases (s : Session) (piece : String) :
    (Lexer.firstKind piece = .funcWord ∧
        s.extend piece = { s with funcs := s.funcs ++ [piece] }) ∨
      (Lexer.firstKind piece = .varWord ∧
        s.extend piece = { s with vars := s.vars ++ [piece] }) ∨
      ((Lexer.firstKind piece).isOpener = false ∧
        s.extend piece = { s with stmts := s.stmts ++ [piece] }) := by
  unfold extend
  cases Lexer.firstKind piece with
  | funcWord => exact .inl ⟨rfl, rfl⟩
  | varWord => exact .inr (.inl ⟨rfl, rfl⟩)
  | _ => exact .inr (.inr ⟨rfl, rfl⟩)

/-- How the tokens of a piece come among those of a session. -/
structure Insertion (s : Session) (piece : String) (ts vs us us' : List Token) : Prop where
  old : Lexer.tokens s.source = ts ++ us
  new : Lexer.tokens (s.extend piece).source = ts ++ vs ++ us'
  same : us.map Token.bare = us'.map Token.bare
  piece : vs.map Token.bare = (Lexer.tokens piece).map Token.bare
  front : net ts = 0
  back : Parser.startsWith .funcWord us = false
  place : us = [] ∧ us' = [] ∧ Parser.startsWith .funcWord vs = false ∨
    ∃ v more, vs = v :: more ∧ (v.kind = .funcWord ∨ v.kind = .varWord)

/-- A piece that is added closes the braces that it opens. -/
theorem Insertion.net_eq_zero {ts vs us us' : List Token} {tree tree' : Script Extent}
    (h : s.Insertion piece ts vs us us')
    (htree : Grammar.Program (Lexer.allTokens s.source) tree)
    (htree' : Grammar.Program (Lexer.allTokens (s.extend piece).source) tree') : net vs = 0 := by
  have hold := htree.net_eq_zero
  have hnew := htree'.net_eq_zero
  rw [h.old, Grammar.net_append, Grammar.net_eq_of_map_bare h.same] at hold
  rw [h.new, Grammar.net_append, Grammar.net_append] at hnew
  omega

theorem exists_insertion_of_eq {front back : List String}
    (hold : s.funcs ++ s.vars ++ s.stmts = front ++ back)
    (hnew : (s.extend piece).funcs ++ (s.extend piece).vars ++ (s.extend piece).stmts =
      front ++ piece :: back)
    (hfront : ∀ p ∈ front, net (Lexer.tokens p) = 0)
    (hback : ∀ p ∈ back, Lexer.firstKind p ≠ .funcWord)
    (hplace : back = [] ∧ Lexer.firstKind piece ≠ .funcWord ∨
      Lexer.firstKind piece = .funcWord ∨ Lexer.firstKind piece = .varWord) :
    ∃ ts vs us us', s.Insertion piece ts vs us us' := by
  obtain ⟨here, there, here', hfirst, hsecond⟩ := Lexer.exists_tokens_insert front piece back
  refine ⟨_, _, _, _, ?_, ?_, Lexer.map_bare_scan here here' ("\n".intercalate back).toList,
    Lexer.map_bare_scan there (1, 1) _, Lexer.net_tokens_intercalate hfront, ?_, ?_⟩
  · rw [source, hold, hfirst]
  · rw [source, hnew, hsecond]
  · rw [Lexer.startsWith_scan]
    exact Lexer.startsWith_tokens_intercalate hback
  · rcases hplace with ⟨rfl, hpiece⟩ | hpiece | hpiece
    · refine .inl ⟨?_, ?_, ?_⟩
      · rw [String.intercalate_nil, String.toList_empty, Lexer.scan]
      · rw [String.intercalate_nil, String.toList_empty, Lexer.scan]
      · rw [Lexer.startsWith_scan]
        exact Lexer.startsWith_tokens hpiece
    · obtain ⟨v, more, hscan, hv⟩ := Lexer.exists_scan_cons hpiece (by decide) there
      exact .inr ⟨v, more, hscan, .inl hv⟩
    · obtain ⟨v, more, hscan, hv⟩ := Lexer.exists_scan_cons hpiece (by decide) there
      exact .inr ⟨v, more, hscan, .inr hv⟩

theorem Orderly.exists_insertion (h : s.Orderly) (piece : String) :
    ∃ ts vs us us', s.Insertion piece ts vs us us' := by
  have hvars : ∀ p ∈ s.vars, Lexer.firstKind p ≠ .funcWord := by
    intro p hp hkind
    cases (h.vars p hp).symm.trans hkind
  have hstmts : ∀ p ∈ s.stmts, Lexer.firstKind p ≠ .funcWord := h.firstKind_ne rfl
  have hclosed := h.closed
  rw [List.forall_mem_append] at hclosed
  rcases s.extend_cases piece with ⟨hkind, hextend⟩ | ⟨hkind, hextend⟩ | ⟨hkind, hextend⟩
  · refine exists_insertion_of_eq (List.append_assoc s.funcs s.vars s.stmts) ?_
      (List.forall_mem_append.1 hclosed.1).1 (List.forall_mem_append.2 ⟨hvars, hstmts⟩)
      (.inr (.inl hkind))
    rw [hextend]
    simp
  · refine exists_insertion_of_eq rfl ?_ hclosed.1 hstmts (.inr (.inr hkind))
    rw [hextend]
    simp
  · refine exists_insertion_of_eq (List.append_nil _).symm ?_ h.closed (List.forall_mem_nil _)
      (.inl ⟨rfl, ?_⟩)
    · rw [hextend]
      simp
    · intro hfunc
      rw [hfunc] at hkind
      cases hkind

theorem Orderly.extend (h : s.Orderly) (hvalid : (s.extend piece).Valid) :
    (s.extend piece).Orderly := by
  have hpiece : net (Lexer.tokens piece) = 0 := by
    obtain ⟨ts, vs, us, us', hinsertion⟩ := h.exists_insertion piece
    obtain ⟨tree, htree, -⟩ := h.valid
    obtain ⟨tree', htree', -⟩ := hvalid
    rw [← Grammar.net_eq_of_map_bare hinsertion.piece]
    exact hinsertion.net_eq_zero htree htree'
  have hclosed := h.closed
  simp only [List.forall_mem_append] at hclosed
  rcases s.extend_cases piece with ⟨hkind, hextend⟩ | ⟨hkind, hextend⟩ | ⟨hkind, hextend⟩
  · rw [hextend] at hvalid ⊢
    refine ⟨hvalid, ?_, h.vars, h.stmts, ?_⟩
    · simpa [or_imp, forall_and, hkind] using h.funcs
    · simpa [or_imp, forall_and, and_assoc, hpiece] using hclosed
  · rw [hextend] at hvalid ⊢
    refine ⟨hvalid, h.funcs, ?_, h.stmts, ?_⟩
    · simpa [or_imp, forall_and, hkind] using h.vars
    · simpa [or_imp, forall_and, and_assoc, hpiece] using hclosed
  · rw [hextend] at hvalid ⊢
    refine ⟨hvalid, h.funcs, h.vars, ?_, ?_⟩
    · simpa [or_imp, forall_and, hkind] using h.stmts
    · simpa [or_imp, forall_and, and_assoc, hpiece] using hclosed

theorem Reachable.orderly {parenReports : Bool} (h : s.Reachable parenReports) : s.Orderly :=
  h.keeps orderly_empty fun _ _ ↦ Orderly.extend

/-- A piece that is added leaves what the program of a session declares. -/
theorem Insertion.extends {ts vs us us' : List Token} {tree tree' : Script Extent}
    (h : s.Insertion piece ts vs us us')
    (htree : Grammar.Program (Lexer.allTokens s.source) tree)
    (htree' : Grammar.Program (Lexer.allTokens (s.extend piece).source) tree') :
    tree'.Extends tree := by
  have hvs : net vs = 0 := h.net_eq_zero htree htree'
  have hall : Grammar.Program (ts ++ us ++ [Lexer.endMark s.source]) tree := h.old ▸ htree
  have hall' : Grammar.Program (ts ++ vs ++ us' ++ [Lexer.endMark (s.extend piece).source]) tree' :=
    h.new ▸ htree'
  constructor
  · rcases h.place with ⟨rfl, rfl, hplace⟩ | ⟨v, more, rfl, hfunc | hvar⟩
    · rw [List.append_nil] at hall hall'
      exact hall.funcs_eq_of_end hall' hplace ▸ List.prefix_rfl
    · rw [List.append_assoc ts] at hall'
      exact hall.funcs_prefix_of_funcWord hall' hfunc h.back
    · rw [List.append_assoc ts] at hall'
      exact hall.funcs_eq_of_varWord hall' hvar h.front h.back ▸ List.prefix_rfl
  · intro main hmain
    obtain ⟨fts, dts, sts, main', -, -, hmain', -⟩ := hall'.exists_parts
    refine ⟨main', hmain', ?_⟩
    intro d hd
    have hannounces := hall.announces hmain d hd
    have hannounces' : Grammar.Announces (ts ++ vs ++ us') d.name d.type := by
      rcases h.place with ⟨rfl, rfl, -⟩ | ⟨v, more, rfl, hv⟩
      · rw [List.append_nil] at hannounces ⊢
        exact hannounces.left vs
      · have hopener : v.kind.isOpener = true := by
          rcases hv with hv | hv <;> rw [hv] <;> rfl
        exact hannounces.insert hall' hopener h.front hvs h.same
    obtain ⟨_, hsame, hdeclared⟩ := hall'.exists_of_announces hannounces'
    obtain rfl := Option.some.inj (hmain'.symm.trans hsame)
    exact hdeclared

/-- Whether evaluations and commands that do not empty it lead from one session to another. -/
inductive Continues (s : Session) : Session → Prop
  | refl : Continues s s
  | eval {s' : Session} (h : Continues s s') (input : String) : Continues s (s'.eval input).1
  | command {s' : Session} (h : Continues s s') (palette : Text.Palette) (text : String)
    (htext : Command.ofText? text ≠ some .reset) : Continues s (s'.command palette text).1

/-- Whether the program of a session is valid and its main part binds the names of a context. -/
def Knows (s : Session) (Γ : Context) : Prop :=
  ∃ tree, Grammar.Program (Lexer.allTokens s.source) tree ∧ tree.WellFormed ∧ tree.MainContext Γ

theorem Valid.exists_knows (h : s.Valid) : ∃ Γ, s.Knows Γ := by
  obtain ⟨tree, htree, hformed⟩ := h
  obtain ⟨main, hmain⟩ := htree.exists_main
  obtain ⟨Γ, hcontext, -⟩ := (Script.written_of_program htree).exists_mainContext hformed hmain
  exact ⟨Γ, tree, htree, hformed, hcontext⟩

/-- The answer to an expression depends on what is known. -/
theorem Knows.typeOf_eq_ok_iff {Γ : Context} (h : s.Knows Γ) {input : String} {e : Expr Tag}
    (he : Expr.parse input = .ok e) (text : String) :
    s.typeOf (Text.trim input) = .ok text ↔ ∃ type, HasType Γ.env e type ∧ type.text = text := by
  obtain ⟨tree, htree, hformed, main, hmain, hdeclares⟩ := h
  obtain ⟨Γ', ⟨main', hmain', hdeclares'⟩, hanswer⟩ := Session.typeOf_eq_ok_iff htree hformed he
  obtain rfl := Option.some.inj (hmain.symm.trans hmain')
  obtain rfl := hdeclares.unique hdeclares'
  exact hanswer text

/-- What is known when a piece is added is still known after it. -/
theorem Orderly.knows_extend {Γ : Context} (h : s.Orderly) (hΓ : s.Knows Γ)
    (hvalid : (s.extend piece).Valid) : ∃ Γ', (s.extend piece).Knows Γ' ∧ Γ.env.Le Γ'.env := by
  obtain ⟨tree, htree, hformed, hcontext⟩ := hΓ
  obtain ⟨Γ', tree', htree', hformed', hcontext'⟩ := hvalid.exists_knows
  obtain ⟨ts, vs, us, us', hinsertion⟩ := h.exists_insertion piece
  have hextends := hinsertion.extends htree htree'
  exact ⟨Γ', ⟨tree', htree', hformed', hcontext'⟩, hextends.env_le hcontext hcontext'⟩

theorem Continues.knows {s' : Session} {Γ : Context} (h : s.Continues s') (hs : s.Orderly)
    (hΓ : s.Knows Γ) : s'.Orderly ∧ ∃ Γ', s'.Knows Γ' ∧ Γ.env.Le Γ'.env := by
  induction h with
  | refl => exact ⟨hs, Γ, hΓ, fun _ _ hname ↦ hname⟩
  | @eval s' h input ih =>
    rcases s'.eval_cases input with hsame | ⟨heval, hvalid⟩
    · rw [hsame]
      exact ih
    · obtain ⟨horderly, Γ₁, hknows, hle⟩ := ih
      obtain ⟨Γ₂, hknows', hle'⟩ := horderly.knows_extend hknows hvalid
      rw [heval]
      exact ⟨horderly.extend hvalid, Γ₂, hknows', fun name type hname ↦
        hle' name type (hle name type hname)⟩
  | @command s' h palette text htext ih =>
    rcases command_cases palette s' text with hsame | ⟨hreset, -⟩
    · rw [hsame]
      exact ih
    · exact absurd hreset htext

end Session

/-- An expression that a session answers with a type is answered with that type ever after, until
the session is emptied. -/
theorem answers_persist {parenReports : Bool} {s s' : Session} {input answer : String}
    (h : s.Reachable parenReports) (hexpr : (Expr.parse input).isOk = true)
    (hanswer : (s.eval input).2 = .ok answer) (hcontinues : s.Continues s') :
    (s'.eval input).2 = .ok answer := by
  obtain ⟨e, he⟩ := isOk_iff_exists.1 hexpr
  obtain ⟨Γ, hΓ⟩ := h.valid.exists_knows
  obtain ⟨-, Γ', hΓ', hle⟩ := hcontinues.knows h.orderly hΓ
  rw [Session.eval_of_expression he] at hanswer ⊢
  obtain ⟨type, htype, htext⟩ := (hΓ.typeOf_eq_ok_iff he answer).1 hanswer
  exact (hΓ'.typeOf_eq_ok_iff he answer).2 ⟨type, htype.mono hle, htext⟩

/-- A function that comes before a declaration leaves the type of what is declared. -/
theorem answers_persist_function : ∃ s : Session, s = Session.initial.extend "var n:Int" ∧
    s.Reachable true ∧ (Expr.parse "(n+1)").isOk = true ∧ (s.eval "(n+1)").2 = .ok "Int" ∧
    s.Continues (s.eval "func f(){}").1 ∧
    ((s.eval "func f(){}").1.eval "(n+1)").2 = .ok "Int" := by
  obtain ⟨e, hexpr, hanswer⟩ := Session.exists_eval_declared
  have hok : (Expr.parse "(n+1)").isOk = true := isOk_iff_exists.2 ⟨e, hexpr⟩
  have hcontinues (s : Session) : s.Continues (s.eval "func f(){}").1 := .eval .refl _
  exact ⟨_, rfl, Session.reachable_declared, hok, hanswer, hcontinues _,
    answers_persist Session.reachable_declared hok hanswer (hcontinues _)⟩

end ScriptAnalysis
