import ScriptAnalysis.Proofs.OneKind
import ScriptAnalysis.Proofs.Stability

/-!
# The pieces of a session

A piece is put where its first token says, and kept if the whole program is valid. So the pieces of
a session need not be of one kind each. Of those that stand with the functions all but the last hold
functions alone, and of those that stand with the declarations all but the last hold declarations
alone. Where the pieces before the statements hold no statements and the others nothing else, a
variable can be declared under any new name. Unless the statements begin with an initial value, it
can be declared only there.
-/

namespace ScriptAnalysis

open Grammar (net)
open Lexer (scan tokens)

theorem Grammar.Functions.starts {t : Token} {ts : List Token} {fs : List (FuncDef Extent)}
    (h : Functions (t :: ts) fs) : t.kind = .funcWord := by
  generalize hrow : t :: ts = row at h
  cases h with
  | nil => cases hrow
  | cons h hs =>
    obtain ⟨word, head, l, inside, r, next, vars, block, rfl, hword, -⟩ := h.exists_head
    obtain ⟨rfl, -⟩ := List.cons.inj hrow
    exact hword

theorem Grammar.Declarations.starts {t : Token} {ts : List Token} {ds : List (VarDecl Extent)}
    (h : Declarations (t :: ts) ds) : t.kind = .varWord := by
  generalize hrow : t :: ts = row at h
  cases h with
  | nil => cases hrow
  | cons h hs =>
    obtain ⟨word, more, rfl, hword, -⟩ := h.lacks
    obtain ⟨rfl, -⟩ := List.cons.inj hrow
    exact hword

/-- A declaration without a value is the last one before what begins with neither a value nor the
word of a variable. -/
theorem Grammar.Declarations.eq_of_row {word n colon type : Token} {mid us sts : List Token}
    {ds : List (VarDecl Extent)} (h : Declarations (word :: mid) ds)
    (hrow : n :: colon :: type :: us = mid ++ sts)
    (hvalue : Parser.startsWith .assign us = false)
    (hvar : Parser.startsWith .varWord us = false) : us = sts := by
  generalize hts : word :: mid = ts at h
  cases h with
  | nil => cases hts
  | cons hd hs =>
    cases hd with
    | plain hw hn hc ht =>
      cases hts
      obtain ⟨-, hrow⟩ := List.cons.inj hrow
      obtain ⟨-, hrow⟩ := List.cons.inj hrow
      obtain ⟨-, rfl⟩ := List.cons.inj hrow
      cases hs with
      | nil => rfl
      | cons hd _ =>
        obtain ⟨next, more, rfl, hnext, -⟩ := hd.lacks
        simp [Parser.startsWith, hnext] at hvar
    | initial hw hn hc ht heq h =>
      cases hts
      obtain ⟨-, hrow⟩ := List.cons.inj hrow
      obtain ⟨-, hrow⟩ := List.cons.inj hrow
      obtain ⟨-, rfl⟩ := List.cons.inj hrow
      simp [Parser.startsWith, heq] at hvalue

/-- Whether a source holds functions, declarations or statements alone. -/
def OneKind (source : String) : Prop :=
  OnlyFunctions source ∨ OnlyDeclarations source ∨ OnlyStatements source

/-- The first token of a source of one kind tells which. -/
theorem OneKind.cases {source : String} (h : OneKind source) :
    (OnlyFunctions source ∧ Lexer.firstKind source = .funcWord) ∨
      (OnlyDeclarations source ∧ Lexer.firstKind source = .varWord) ∨
      (OnlyStatements source ∧ (Lexer.firstKind source).isOpener = false) := by
  unfold Lexer.firstKind
  cases htokens : tokens source with
  | nil =>
    have hnone : OnlyStatements source := onlyStatements_iff.2 ⟨[], htokens ▸ .nil⟩
    exact .inr (.inr ⟨hnone, rfl⟩)
  | cons t ts =>
    rcases h with h | h | h
    · obtain ⟨fs, hf⟩ := onlyFunctions_iff.1 h
      rw [htokens] at hf
      exact .inl ⟨h, hf.starts⟩
    · obtain ⟨ds, hd⟩ := onlyDeclarations_iff.1 h
      rw [htokens] at hd
      exact .inr (.inl ⟨h, hd.starts⟩)
    · obtain ⟨ss, hs⟩ := onlyStatements_iff.1 h
      rw [htokens] at hs
      exact .inr (.inr ⟨h, (Grammar.lacks_cons.1 hs.lacks).1⟩)

theorem Lexer.firstKind_intercalate {piece : String} (others : List String)
    (h : firstKind piece ≠ .eof) :
    firstKind ("\n".intercalate (piece :: others)) = firstKind piece := by
  obtain ⟨here, htokens, -⟩ := tokens_intercalate_append [piece] others
  rw [List.singleton_append, String.intercalate_singleton] at htokens
  unfold firstKind at h ⊢
  rw [htokens]
  cases hpiece : tokens piece with
  | nil =>
    rw [hpiece] at h
    exact absurd rfl h
  | cons t ts => rfl

theorem exists_eq_append_of_mem_dropLast {α : Type} {l : List α} {a : α} (h : a ∈ l.dropLast) :
    ∃ front next rest, l = front ++ a :: next :: rest := by
  obtain ⟨front, back, hdrop⟩ := List.append_of_mem h
  have hne : l ≠ [] := by
    rintro rfl
    cases h
  have hl := List.dropLast_append_getLast hne
  rw [hdrop, List.append_assoc, List.cons_append] at hl
  cases back with
  | nil => exact ⟨front, _, [], hl.symm⟩
  | cons next back => exact ⟨front, next, _, hl.symm⟩

theorem Text.trim_eq_self {s : String} (hfirst : ∀ c ∈ s.toList.head?, isBlank c = false)
    (hlast : ∀ c ∈ s.toList.getLast?, isBlank c = false) : trim s = s := by
  have hdrop (cs : List Char) (h : ∀ c ∈ cs.head?, isBlank c = false) :
      cs.dropWhile isBlank = cs := by
    cases cs with
    | nil => rfl
    | cons c cs => rw [List.dropWhile_cons_of_neg (by simp [h c rfl])]
  have hreverse : ∀ c ∈ s.toList.reverse.head?, isBlank c = false := by
    rw [List.head?_reverse]
    exact hlast
  rw [trim, trimRight, hdrop _ hfirst, hdrop _ hreverse, List.reverse_reverse, String.ofList_toList]

/-- Whether a text is a name: a word that is not reserved and names no type. -/
def IsName (name : String) : Prop := Lexer.IsWord name.toList ∧ Kind.ofWord name = .ident

/-- The text that declares an integer variable. -/
def declaring (name : String) : String := "var " ++ name ++ " : Int"

section

variable {name : String}

theorem toList_declaring (name : String) :
    (declaring name).toList =
      "var".toList ++ ' ' :: (name.toList ++ ' ' :: ':' :: ' ' :: "Int".toList) := by
  rw [declaring, String.toList_append, String.toList_append]
  simp

theorem trim_declaring (name : String) : Text.trim (declaring name) = declaring name := by
  apply Text.trim_eq_self
  · rw [toList_declaring]
    rintro _ ⟨⟩
    decide
  · rw [declaring, String.toList_append, List.getLast?_append]
    rintro _ ⟨⟩
    decide

theorem declaring_ne_empty (name : String) : declaring name ≠ "" := by
  intro hempty
  have hlist := toList_declaring name
  rw [hempty] at hlist
  simp at hlist

/-- The tokens of a declaration. -/
theorem exists_scan_declaring (hname : IsName name)
    (here : Nat × Nat) :
    ∃ word n colon type, scan here (declaring name).toList = [word, n, colon, type] ∧
      word.kind = .varWord ∧ n.kind = .ident ∧ n.lexeme = name ∧ colon.kind = .colon ∧
      type.kind = .type ∧ type.lexeme = "Int" := by
  have hvar : Lexer.IsWord "var".toList := by
    simp [Lexer.IsWord, Lexer.IsRun]
    decide
  have hint : Lexer.IsWord "Int".toList := by
    simp [Lexer.IsWord, Lexer.IsRun]
    decide
  have hcolon : Lexer.piece ':' (' ' :: "Int".toList) = (some .colon, 0) := by decide +kernel
  rw [toList_declaring, Lexer.scan_word_blank hvar, Lexer.scan_word_blank hname.1,
    Lexer.scan_of_kind (congrArg Prod.fst hcolon), hcolon, List.drop_zero,
    Lexer.scan_blank (by decide), ← List.append_nil "Int".toList,
    Lexer.scan_word hint (by simp), Lexer.scan]
  exact ⟨_, _, _, _, rfl, rfl, by simpa using hname.2, by simp, rfl, rfl, rfl⟩

theorem exists_declaration_declaring (hname : IsName name) (here : Nat × Nat) :
    ∃ d, Grammar.Declaration (scan here (declaring name).toList) d ∧ d.name = name ∧
      d.type = "Int" ∧ d.init = none := by
  obtain ⟨word, n, colon, type, hscan, hword, hn, hlexeme, hcolon, htype, hint⟩ :=
    exists_scan_declaring hname here
  rw [hscan]
  exact ⟨_, .plain hword hn hcolon htype, hlexeme, hint, rfl⟩

theorem firstKind_declaring (hname : IsName name) :
    Lexer.firstKind (declaring name) = .varWord := by
  obtain ⟨word, n, colon, type, hscan, hword, -⟩ := exists_scan_declaring hname (1, 1)
  rw [Lexer.firstKind, tokens, hscan]
  exact hword

theorem isOk_parse_declaring (hname : IsName name) :
    (Expr.parse (declaring name)).isOk = false := by
  obtain ⟨word, n, colon, type, hscan, hword, -⟩ := exists_scan_declaring hname (1, 1)
  have htokens : tokens (declaring name) = [word, n, colon, type] := hscan
  rw [Bool.eq_false_iff]
  intro hok
  obtain ⟨e, he⟩ := Expr.parse_isOk_iff.1 hok
  rw [Lexer.allTokens, htokens] at he
  generalize hall : [word, n, colon, type] ++ [Lexer.endMark (declaring name)] = all at he
  cases he with
  | mk h hstop =>
    obtain ⟨rfl, -⟩ := List.append_inj' hall rfl
    exact h.lacks.ne rfl word List.mem_cons_self hword

end

theorem Script.MainContext.env_eq_none {tree : Script Extent} {Γ : Context} {name : String}
    (h : tree.MainContext Γ) (hfuncs : name ∉ tree.funcs.map FuncDef.name)
    (hvars : name ∉ tree.vars.map VarDecl.name) : Γ.env name = none := by
  obtain ⟨main, hmain, hdeclares⟩ := h
  have hdecls : tree.vars = main.vars.decls := by
    rw [Script.vars, hmain]
    rfl
  rw [Option.eq_none_iff_forall_not_mem]
  intro type htype
  rcases hdeclares.env_eq_some_iff.1 htype with ⟨d, hd, rfl, -⟩ | houter
  · rw [← hdecls] at hd
    exact hvars (List.mem_map_of_mem hd)
  · obtain ⟨signature, hlookup, -⟩ := Option.map_eq_some_iff.1 houter
    exact hfuncs (List.of_mem_zip (mem_of_lookup_eq_some hlookup)).1

/-- A program stays well formed with one more variable under a new name. -/
theorem Script.WellFormed.declare {tree tree' : Script Extent} {main main' : Body Extent}
    {d : VarDecl Extent} {type : Prim} (h : tree.WellFormed) (hwritten : tree.Written)
    (hwritten' : tree'.Written) (hmain : tree.main = some main) (hmain' : tree'.main = some main')
    (hfuncs : tree'.funcs = tree.funcs) (hdecls : main'.vars.decls = main.vars.decls ++ [d])
    (hstmts : Stmt.mapAll (fun _ ↦ ()) main'.block.stmts =
      Stmt.mapAll (fun _ ↦ ()) main.block.stmts)
    (htype : writtenType? d.type = some type) (hinit : d.init = none)
    (hname : ∀ Γ, tree.MainContext Γ → Γ.env d.name = none) : tree'.WellFormed := by
  obtain ⟨Γ, hΓ, htyped⟩ := hwritten.exists_mainContext h hmain
  obtain ⟨hnodup, hfunctions, -⟩ := hwritten.wellFormed_iff.1 h
  have hnew : Γ.env d.name = none := hname Γ hΓ
  obtain ⟨_, hsame, hdeclares⟩ := hΓ
  obtain rfl := Option.some.inj (hmain.symm.trans hsame)
  have hdeclares' := hdeclares.concat hnew htype (by simp [hinit])
  have htyped' : Stmt.AllWellTyped (Γ.bind d.name type).env .void main'.block.stmts := by
    have hmore := (htyped.mono (Context.le_bind hnew type)).map (f := fun _ ↦ ())
    rw [← hstmts] at hmore
    exact hmore.of_map
  rw [hwritten'.wellFormed_iff, hfuncs, hmain']
  refine ⟨hnodup, hfunctions, ?_⟩
  rintro _ ⟨⟩
  refine ⟨Γ.bind d.name type, hdecls ▸ hdeclares', ?_⟩
  cases hblock : main'.block with
  | mk note ss =>
    rw [hblock] at htyped'
    exact .mk htyped'

/-! ## Sessions of separate pieces -/

namespace Session

variable {s : Session} {name : String}

/-- Whether each piece of a session holds by itself what its place asks for. -/
structure Apart (s : Session) : Prop where
  funcs : ∀ piece ∈ s.funcs, OnlyFunctions piece
  vars : ∀ piece ∈ s.vars, OnlyDeclarations piece
  stmts : ∀ piece ∈ s.stmts, OnlyStatements piece

/-- Whether the pieces before the statements hold no statements, and the others nothing else. -/
structure Separable (s : Session) : Prop where
  definitions : OnlyDefinitions ("\n".intercalate (s.funcs ++ s.vars))
  statements : OnlyStatements ("\n".intercalate s.stmts)

/-- Whether the program of a session has a function or a variable of a name. -/
def Binds (s : Session) (name : String) : Prop :=
  ∃ script, Script.parse s.source = .ok script ∧
    (name ∈ script.funcs.map FuncDef.name ∨ name ∈ script.vars.map VarDecl.name)

theorem Apart.separable (h : s.Apart) : s.Separable := by
  refine ⟨onlyDefinitions_iff.2 ?_, onlyStatements_intercalate h.stmts⟩
  obtain ⟨fs, hf⟩ := onlyFunctions_iff.1 (onlyFunctions_intercalate h.funcs)
  obtain ⟨ds, hd⟩ := onlyDeclarations_iff.1 (onlyDeclarations_intercalate h.vars)
  obtain ⟨here, htokens, -⟩ := Lexer.tokens_intercalate_append s.funcs s.vars
  obtain ⟨ds', hd'⟩ := Grammar.Declarations.exists_scan hd here
  exact ⟨_, _, fs, ds', htokens, hf, hd'⟩

theorem binds_of_mem {tree : Script Extent}
    (htree : Grammar.Program (Lexer.allTokens s.source) tree)
    (h : name ∈ tree.funcs.map FuncDef.name ∨ name ∈ tree.vars.map VarDecl.name) :
    s.Binds name := by
  refine ⟨tree.number, Script.parse_eq_ok_iff.2 ⟨tree, htree, rfl⟩, ?_⟩
  rw [← tree.map_number, Script.vars_map, List.map_map] at h
  rw [Script.map, FuncDef.map_name_map] at h
  exact h

/-- The tokens of the program of a session and of that with a declaration more. -/
theorem exists_tokens_declaring (hname : IsName name) (s : Session) :
    ∃ here there here', tokens s.source =
        tokens ("\n".intercalate (s.funcs ++ s.vars)) ++
          scan here ("\n".intercalate s.stmts).toList ∧
      tokens (s.extend (declaring name)).source =
        tokens ("\n".intercalate (s.funcs ++ s.vars)) ++ scan there (declaring name).toList ++
          scan here' ("\n".intercalate s.stmts).toList := by
  have hextend : s.extend (declaring name) = { s with vars := s.vars ++ [declaring name] } := by
    rw [extend, firstKind_declaring hname]
  have hsource : (s.extend (declaring name)).source =
      "\n".intercalate (s.funcs ++ s.vars ++ declaring name :: s.stmts) := by
    rw [source, hextend]
    simp
  rw [hsource]
  exact Lexer.exists_tokens_insert (s.funcs ++ s.vars) (declaring name) s.stmts

/-- Between definitions and statements a variable can be declared under a new name. -/
theorem Separable.valid_declaring (h : s.Separable) (hvalid : s.Valid) (hname : IsName name)
    (hnew : ¬ s.Binds name) : (s.extend (declaring name)).Valid := by
  obtain ⟨fts, dts, fs, ds, hdefinitions, hf, hd⟩ := onlyDefinitions_iff.1 h.definitions
  obtain ⟨ss, hs⟩ := onlyStatements_iff.1 h.statements
  obtain ⟨here, there, here', hold, hextended⟩ := exists_tokens_declaring hname s
  obtain ⟨d, hdeclaration, hdname, htype, hinit⟩ := exists_declaration_declaring hname there
  have hstop (source : String) : (Lexer.endMark source).kind = .eof := rfl
  obtain ⟨ss₁, hs₁, hshape₁⟩ := Grammar.Statements.exists_scan hs (hstop _) (hstop s.source) here
  obtain ⟨ss₂, hs₂, hshape₂⟩ := Grammar.Statements.exists_scan hs (hstop _)
    (hstop (s.extend (declaring name)).source) here'
  -- The declarations before are the same, and the statements behind the same but for their places.
  have htree₁ := Grammar.Program.mk hf (.mk hd hs₁) (hstop s.source)
  have htree₂ := Grammar.Program.mk hf (.mk (hd.append (.cons hdeclaration .nil)) hs₂) (hstop _)
  rw [← List.append_assoc fts, ← hdefinitions, ← hold] at htree₁
  rw [List.append_nil, ← List.append_assoc fts, ← List.append_assoc fts, ← hdefinitions,
    ← hextended] at htree₂
  obtain ⟨tree, htree, hformed⟩ := hvalid
  obtain rfl := htree.unique htree₁
  refine ⟨_, htree₂, hformed.declare (Script.written_of_program htree)
    (Script.written_of_program htree₂) rfl rfl rfl rfl (hshape₂.trans hshape₁.symm)
    (congrArg writtenType? htype) hinit ?_⟩
  intro Γ hΓ
  rw [hdname]
  apply hΓ.env_eq_none
  · intro hmem
    exact hnew (binds_of_mem htree (.inl hmem))
  · intro hmem
    exact hnew (binds_of_mem htree (.inr hmem))

/-- Unless the statements begin with an initial value, a variable can be declared only between
definitions and statements. -/
theorem Orderly.separable (h : s.Orderly) (hname : IsName name)
    (hvalid : (s.extend (declaring name)).Valid)
    (hstmts : Lexer.firstKind ("\n".intercalate s.stmts) ≠ .assign) : s.Separable := by
  obtain ⟨tree, htree, -⟩ := hvalid
  obtain ⟨here, there, here', -, hextended⟩ := exists_tokens_declaring hname s
  obtain ⟨word, n, colon, type, hscan, hword, -⟩ := exists_scan_declaring hname there
  have hclosed := h.closed
  rw [List.forall_mem_append] at hclosed
  have hnet := Lexer.net_tokens_intercalate hclosed.1
  have hvar : ∀ piece ∈ s.stmts, Lexer.firstKind piece ≠ .varWord := h.firstKind_ne rfl
  rw [hscan, List.append_assoc] at hextended
  have hprogram : Grammar.Program (tokens (s.extend (declaring name)).source ++
      [Lexer.endMark (s.extend (declaring name)).source]) tree := htree
  obtain ⟨fts, dts, sts, main, hparts, hf, -, hd, hs⟩ := hprogram.exists_parts
  rcases Grammar.append_cons_eq_append (hparts.symm.trans hextended) with
    ⟨mid, hfts, -⟩ | ⟨front, hfront, hrest⟩
  · have hopen := hf.one_le_net hfts hword
    omega
  rcases Grammar.append_cons_eq_append hrest with ⟨mid, hdts, hafter⟩ | ⟨mid, -, hsts⟩
  · obtain ⟨ds₁, ds₂, -, hbefore, hfrom⟩ := hd.cut hdts hword
    refine ⟨onlyDefinitions_iff.2 ⟨fts, front, _, ds₁, hfront, hf, hbefore⟩, ?_⟩
    obtain rfl := hfrom.eq_of_row hafter
      ((Lexer.startsWith_scan _ _ _).trans (Lexer.startsWith_tokens hstmts))
      ((Lexer.startsWith_scan _ _ _).trans (Lexer.startsWith_tokens_intercalate hvar))
    obtain ⟨ss, hs', -⟩ := hs.exists_scan rfl (Lexer.endMark_kind ("\n".intercalate s.stmts)) (1, 1)
    exact onlyStatements_iff.2 ⟨ss, hs'⟩
  · have hmem : word ∈ sts := by
      rw [hsts]
      simp
    exact absurd hword (hs.lacks.ne rfl word hmem)

/-- A declaration is taken exactly if the program with it is valid. -/
theorem eval_declaring_iff (hname : IsName name) :
    (s.eval (declaring name)).2 = .ok "ok" ↔ (s.extend (declaring name)).Valid := by
  have hexpr := isOk_parse_declaring hname
  have htrim := trim_declaring name
  constructor
  · intro heval
    rw [← htrim]
    exact valid_of_eval (htrim.symm ▸ hexpr) heval
  · intro hvalid
    rw [eval_of_valid (htrim.symm ▸ declaring_ne_empty name) (htrim.symm ▸ hexpr)
      (htrim.symm ▸ hvalid)]

variable {piece next : String} {front rest : List String}

/-- The tokens of a piece and of the piece behind it in the program of a session. -/
theorem exists_tokens_between {kind : Kind}
    (hpieces : s.funcs ++ s.vars ++ s.stmts = front ++ piece :: next :: rest)
    (hpiece : Lexer.firstKind piece = kind) (hnext : Lexer.firstKind next = kind)
    (hkind : kind ≠ .eof) :
    ∃ there v more w after,
      tokens s.source = tokens ("\n".intercalate front) ++ v :: more ++ w :: after ∧
        scan there piece.toList = v :: more ∧ v.kind = kind ∧ w.kind = kind := by
  obtain ⟨-, there, here', -, htokens⟩ := Lexer.exists_tokens_insert front piece (next :: rest)
  have hfirst : Lexer.firstKind ("\n".intercalate (next :: rest)) = kind := by
    rw [Lexer.firstKind_intercalate rest (hnext ▸ hkind), hnext]
  obtain ⟨v, more, hv, hvkind⟩ := Lexer.exists_scan_cons hpiece hkind there
  obtain ⟨w, after, hw, hwkind⟩ := Lexer.exists_scan_cons hfirst hkind here'
  rw [← hpieces, hv, hw] at htokens
  exact ⟨there, v, more, w, after, htokens, hv, hvkind, hwkind⟩

/-- Between functions stand functions alone. -/
theorem Orderly.onlyFunctions (h : s.Orderly) (hpiece : piece ∈ s.funcs.dropLast) :
    OnlyFunctions piece := by
  obtain ⟨front, next, rest, hfuncs⟩ := exists_eq_append_of_mem_dropLast hpiece
  have hpieces : s.funcs ++ s.vars ++ s.stmts =
      front ++ piece :: next :: (rest ++ s.vars ++ s.stmts) := by
    rw [hfuncs]
    simp
  obtain ⟨there, v, more, w, after, htokens, hscan, hv, hw⟩ := exists_tokens_between hpieces
    (h.funcs piece (by simp [hfuncs])) (h.funcs next (by simp [hfuncs])) (by decide)
  obtain ⟨tree, htree, -⟩ := h.valid
  obtain ⟨fs₁, fs₂, mid, -, hbefore, -⟩ := Grammar.Program.cut_functions htree htokens hw
  obtain ⟨-, fs, -, -, hrow⟩ := hbefore.cut rfl hv
  rw [← hscan] at hrow
  exact onlyFunctions_iff.2 (hrow.exists_scan (1, 1))

/-- Between declarations stand declarations alone. -/
theorem Orderly.onlyDeclarations (h : s.Orderly) (hpiece : piece ∈ s.vars.dropLast) :
    OnlyDeclarations piece := by
  obtain ⟨front, next, rest, hvars⟩ := exists_eq_append_of_mem_dropLast hpiece
  have hpieces : s.funcs ++ s.vars ++ s.stmts =
      (s.funcs ++ front) ++ piece :: next :: (rest ++ s.stmts) := by
    rw [hvars]
    simp
  obtain ⟨there, v, more, w, after, htokens, hscan, hv, hw⟩ := exists_tokens_between hpieces
    (h.vars piece (by simp [hvars])) (h.vars next (by simp [hvars])) (by decide)
  have hclosed := h.closed
  rw [hpieces, List.forall_mem_append, List.forall_mem_cons] at hclosed
  have hfront : net (tokens ("\n".intercalate (s.funcs ++ front))) = 0 :=
    Lexer.net_tokens_intercalate hclosed.1
  have hself : net (v :: more) = 0 := by
    rw [← hscan, Grammar.net_eq_of_map_bare (Lexer.map_bare_scan there (1, 1) piece.toList)]
    exact hclosed.2.1
  obtain ⟨tree, htree, -⟩ := h.valid
  obtain ⟨fts, dts, mid, main, ds₁, ds₂, hbefore, hf, -, -, hd, -⟩ :=
    Grammar.Program.cut_declarations htree htokens hw
      (by rw [Grammar.net_append, hfront, hself, Int.add_zero])
  rcases Grammar.append_cons_eq_append hbefore.symm with ⟨mid, hfts, -⟩ | ⟨mid, -, hdts⟩
  · have hopen := hf.one_le_net hfts hv
    omega
  · obtain ⟨-, ds, -, -, hrow⟩ := hd.cut hdts hv
    rw [← hscan] at hrow
    exact onlyDeclarations_iff.2 (hrow.exists_scan (1, 1))

/-- A piece of one kind is put with its kind. -/
theorem Apart.extend (h : s.Apart) (hpiece : OneKind piece) : (s.extend piece).Apart := by
  have hconcat {P : String → Prop} {pieces : List String} (h : ∀ piece ∈ pieces, P piece)
      (hpiece : P piece) : ∀ p ∈ pieces ++ [piece], P p := by
    rw [List.forall_mem_append, List.forall_mem_singleton]
    exact ⟨h, hpiece⟩
  rcases hpiece.cases with ⟨honly, hfirst⟩ | ⟨honly, hfirst⟩ | ⟨honly, hfirst⟩
  · rw [Session.extend, hfirst]
    exact ⟨hconcat h.funcs honly, h.vars, h.stmts⟩
  · rw [Session.extend, hfirst]
    exact ⟨h.funcs, hconcat h.vars honly, h.stmts⟩
  · rcases s.extend_cases piece with ⟨hkind, -⟩ | ⟨hkind, -⟩ | ⟨-, hextend⟩
    · rw [hkind] at hfirst
      cases hfirst
    · rw [hkind] at hfirst
      cases hfirst
    · rw [hextend]
      exact ⟨h.funcs, h.vars, hconcat h.stmts honly⟩

theorem Apart.eval (h : s.Apart) {input : String} (hinput : OneKind (Text.trim input)) :
    (s.eval input).1.Apart := by
  rcases s.eval_cases input with hsame | ⟨heval, -⟩
  · rw [hsame]
    exact h
  · rw [heval]
    exact h.extend hinput

end Session

/-- Of the pieces of a session that is reached, those that stand with the functions hold functions
alone but for the last, and those that stand with the declarations hold declarations alone but for
the last. If each piece holds by itself what its place asks for, this stays so under inputs of one
kind, and a variable can be declared under any new name. In general it can be declared exactly if
the pieces before the statements hold no statements and the others nothing else, unless these begin
with what would be its initial value. -/
theorem session_pieces_separable {parenReports : Bool} {s : Session}
    (h : s.Reachable parenReports) :
    (∀ piece ∈ s.funcs.dropLast, OnlyFunctions piece) ∧
    (∀ piece ∈ s.vars.dropLast, OnlyDeclarations piece) ∧
    (s.Apart → ∀ input, OneKind (Text.trim input) → (s.eval input).1.Apart) ∧
    ∀ name, IsName name → ¬ s.Binds name →
      (s.Apart → (s.eval (declaring name)).2 = .ok "ok") ∧
      (Lexer.firstKind ("\n".intercalate s.stmts) ≠ .assign →
        ((s.eval (declaring name)).2 = .ok "ok" ↔ s.Separable)) := by
  refine ⟨fun _ ↦ h.orderly.onlyFunctions, fun _ ↦ h.orderly.onlyDeclarations,
    fun hapart _ ↦ hapart.eval, ?_⟩
  intro name hname hnew
  rw [Session.eval_declaring_iff hname]
  have hdeclares (hseparable : s.Separable) : (s.extend (declaring name)).Valid :=
    hseparable.valid_declaring h.valid hname hnew
  refine ⟨fun hapart ↦ hdeclares hapart.separable, ?_⟩
  intro hstmts
  exact ⟨fun hvalid ↦ h.orderly.separable hname hvalid hstmts, hdeclares⟩

/-- A session with one variable takes another. -/
theorem session_pieces_separable_declared : ∃ s : Session,
    s = Session.initial.extend "var n:Int" ∧ s.Reachable true ∧ s.Apart ∧
      IsName "m" ∧ ¬ s.Binds "m" ∧ (s.eval (declaring "m")).2 = .ok "ok" := by
  have hname : IsName "m" := by
    simp [IsName, Lexer.IsWord, Lexer.IsRun]
    decide
  have hs : Session.initial.extend "var n:Int" = ⟨[], ["var n:Int"], [], ⟨true, false⟩⟩ := by
    have hfirst : Lexer.firstKind "var n:Int" = .varWord := by decide +kernel
    rw [Session.extend, hfirst]
    rfl
  -- The shape of the tree is written out; its notes are what the source gives them.
  obtain ⟨_, _, _, _, _, hparse⟩ : ∃ a b c d e, Script.parse "var n:Int" =
      .ok ⟨a, [], some ⟨b, ⟨c, [⟨d, "n", "Int", none⟩]⟩, .mk e []⟩⟩ := by
    refine ⟨?_, ?_, ?_, ?_, ?_, ?parse⟩
    case parse =>
      cbv
      rfl
  have hreached := Session.reachable_declared
  rw [hs] at hreached
  have hapart : Session.Apart ⟨[], ["var n:Int"], [], ⟨true, false⟩⟩ := by
    refine ⟨by simp, ?_, by simp⟩
    rw [List.forall_mem_singleton]
    exact ⟨_, hparse, rfl, rfl⟩
  have hnew : ¬ Session.Binds ⟨[], ["var n:Int"], [], ⟨true, false⟩⟩ "m" := by
    rintro ⟨script, hscript, hmem⟩
    rw [Session.source, List.append_nil, List.nil_append, String.intercalate_singleton, hparse]
      at hscript
    cases hscript
    simp [Script.vars] at hmem
  obtain ⟨-, -, -, hdeclare⟩ := session_pieces_separable hreached
  exact ⟨_, hs.symm, hreached, hapart, hname, hnew, (hdeclare "m" hname hnew).1 hapart⟩

/-- A piece that begins with a function is kept with the functions whatever follows, and then no
variable can be declared. -/
theorem declaring_refused_behind_statement : ∃ s : Session,
    s.Reachable true ∧ s.funcs = ["func f() {} print 1"] ∧ ¬ OnlyFunctions "func f() {} print 1" ∧
      IsName "n" ∧ ¬ s.Binds "n" ∧ (s.eval "var n : Int").2 ≠ .ok "ok" := by
  have hfirst : Lexer.firstKind "func f() {} print 1" = .funcWord := by decide +kernel
  have hs : Session.initial.extend "func f() {} print 1" =
      ⟨["func f() {} print 1"], [], [], ⟨true, false⟩⟩ := by
    rw [Session.extend, hfirst]
    rfl
  have hsource : Session.source ⟨["func f() {} print 1"], [], [], ⟨true, false⟩⟩ =
      "func f() {} print 1" := by
    rw [Session.source, List.append_nil, List.append_nil, String.intercalate_singleton]
  -- The shape of the tree is written out; its notes are what the source gives them.
  obtain ⟨_, _, _, _, _, _, _, _, _, _, hparse⟩ : ∃ a b c d e f g h i j,
      Script.parse "func f() {} print 1" =
        .ok ⟨a, [⟨b, "f", [], "", ⟨c, ⟨d, []⟩, .mk e []⟩⟩],
          some ⟨f, ⟨g, []⟩, .mk h [.print i (.int j "1")]⟩⟩ := by
    refine ⟨?_, ?_, ?_, ?_, ?_, ?_, ?_, ?_, ?_, ?_, ?parse⟩
    case parse =>
      cbv
      rfl
  have hvalid : Session.Valid ⟨["func f() {} print 1"], [], [], ⟨true, false⟩⟩ := by
    rw [Session.Valid, hsource]
    refine ⟨_, Script.program_of_parse hparse, (Script.wellFormed_map _).2 ?_⟩
    refine ⟨by simp, [⟨[], .void⟩], rfl, ?_, ?_⟩
    · rw [List.forall_mem_singleton]
      exact ⟨List.nodup_nil, ⟨[], .void⟩, rfl, _, .nil, .mk .nil⟩
    · rintro _ ⟨⟩
      exact ⟨_, .nil, .mk (.cons (.print .int) .nil)⟩
  have hreached : Session.Reachable true ⟨["func f() {} print 1"], [], [], ⟨true, false⟩⟩ := by
    have heval := @Session.eval_of_valid .initial "func f() {} print 1"
    have htrim : Text.trim "func f() {} print 1" = "func f() {} print 1" := by cbv
    rw [htrim, hs] at heval
    have h : (Session.initial.eval "func f() {} print 1").1.Reachable true := .eval .initial _
    rw [heval (by simp) (by cbv) hvalid] at h
    exact h
  have hname : IsName "n" := by
    simp [IsName, Lexer.IsWord, Lexer.IsRun]
    decide
  refine ⟨_, hreached, rfl, ?_, hname, ?_, ?_⟩
  · rintro ⟨script, hscript, -, hstmts⟩
    cases hparse.symm.trans hscript
    cases hstmts
  · rintro ⟨script, hscript, hmem⟩
    rw [hsource] at hscript
    cases hparse.symm.trans hscript
    simp [Script.vars] at hmem
  · intro heval
    have hvalid' := (Session.eval_declaring_iff hname).1 heval
    have hnone : Lexer.firstKind ("\n".intercalate []) ≠ .assign := by
      rw [String.intercalate_nil, Lexer.firstKind, Lexer.tokens_empty]
      decide
    have hdefinitions := (hreached.orderly.separable hname hvalid' hnone).definitions
    rw [List.append_nil, String.intercalate_singleton] at hdefinitions
    obtain ⟨script, hscript, hstmts⟩ := hdefinitions
    cases hparse.symm.trans hscript
    cases hstmts

end ScriptAnalysis
