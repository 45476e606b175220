import ScriptAnalysis.Proofs.Agreement
import ScriptAnalysis.Proofs.Findings
import ScriptAnalysis.Proofs.Registration

/-!
# Layout makes no difference

Sources with the same tokens are read to trees with the same numbers, and a walk asks of a node what
it is and what its text is, but never where it stands. So blanks, comments and line ends may be put
anywhere between tokens, as long as a value that follows a `return` stays on its line and what does
not stays off it. Only the spans change.
-/

namespace ScriptAnalysis

open ScopeTable (globalId)

/-- A tag without its place. -/
def Tag.unplaced (tag : Tag) : Tag := ⟨tag.id, tag.extent.unplaced⟩

mutual

theorem Expr.number_unplaced (last : Nat) (e : Expr Extent) :
    (e.map Extent.unplaced).number last =
      ((e.number last).1.map Tag.unplaced, (e.number last).2) := by
  match e with
  | .int .. | .string .. | .bool .. | .ident .. => rfl
  | .negate note op operand => rw [Expr.map, Expr.number, operand.number_unplaced last]; rfl
  | .parens note inner => rw [Expr.map, Expr.number, inner.number_unplaced last]; rfl
  | .binary note op left right =>
    simp only [Expr.map, Expr.number, left.number_unplaced, right.number_unplaced]
    rfl
  | .call note callee args => rw [Expr.map, Expr.number, Expr.numberAll_unplaced last args]; rfl

theorem Expr.numberAll_unplaced (last : Nat) (es : List (Expr Extent)) :
    Expr.numberAll last (Expr.mapAll Extent.unplaced es) =
      (Expr.mapAll Tag.unplaced (Expr.numberAll last es).1, (Expr.numberAll last es).2) := by
  match es with
  | [] => rfl
  | e :: es =>
    simp only [Expr.mapAll, Expr.numberAll, e.number_unplaced, Expr.numberAll_unplaced _ es]

end

theorem Expr.numberOption_unplaced (last : Nat) (e : Option (Expr Extent)) :
    Expr.numberOption last (e.map (Expr.map Extent.unplaced)) =
      ((Expr.numberOption last e).1.map (Expr.map Tag.unplaced),
        (Expr.numberOption last e).2) := by
  cases e with
  | none => rfl
  | some e => rw [Option.map_some, Expr.numberOption, e.number_unplaced last]; rfl

mutual

theorem Stmt.number_unplaced (last : Nat) (s : Stmt Extent) :
    (s.map Extent.unplaced).number last =
      ((s.number last).1.map Tag.unplaced, (s.number last).2) := by
  match s with
  | .assign note target value => rw [Stmt.map, Stmt.number, value.number_unplaced last]; rfl
  | .loop note condition body =>
    simp only [Stmt.map, Stmt.number, condition.number_unplaced, body.number_unplaced]
    rfl
  | .branch note condition whenTrue none =>
    simp only [Stmt.map, Stmt.number, condition.number_unplaced, whenTrue.number_unplaced]
    rfl
  | .branch note condition whenTrue (some whenFalse) =>
    simp only [Stmt.map, Stmt.number, condition.number_unplaced, whenTrue.number_unplaced,
      Block.numberOption, whenFalse.number_unplaced]
    rfl
  | .print note value => rw [Stmt.map, Stmt.number, value.number_unplaced last]; rfl
  | .ret note none => rfl
  | .ret note (some value) =>
    rw [Stmt.map, Stmt.number, Expr.numberOption, value.number_unplaced last]
    rfl
  | .call note callNote callee args =>
    rw [Stmt.map, Stmt.number, Expr.numberAll_unplaced last args]
    rfl

theorem Block.number_unplaced (last : Nat) (b : Block Extent) :
    (b.map Extent.unplaced).number last =
      ((b.number last).1.map Tag.unplaced, (b.number last).2) := by
  match b with
  | .mk note stmts => rw [Block.map, Block.number, Stmt.numberAll_unplaced last stmts]; rfl

theorem Stmt.numberAll_unplaced (last : Nat) (stmts : List (Stmt Extent)) :
    Stmt.numberAll last (Stmt.mapAll Extent.unplaced stmts) =
      (Stmt.mapAll Tag.unplaced (Stmt.numberAll last stmts).1,
        (Stmt.numberAll last stmts).2) := by
  match stmts with
  | [] => rfl
  | s :: stmts =>
    simp only [Stmt.mapAll, Stmt.numberAll, s.number_unplaced, Stmt.numberAll_unplaced _ stmts]

end

theorem Param.numberAll_unplaced (last : Nat) (ps : List (Param Extent)) :
    Param.numberAll last (ps.map (Param.map Extent.unplaced)) =
      ((Param.numberAll last ps).1.map (Param.map Tag.unplaced), (Param.numberAll last ps).2) := by
  induction ps generalizing last with
  | nil => rfl
  | cons p ps ih => rw [List.map_cons, Param.numberAll, ih]; rfl

theorem VarDecl.numberAll_unplaced (last : Nat) (ds : List (VarDecl Extent)) :
    VarDecl.numberAll last (ds.map (VarDecl.map Extent.unplaced)) =
      ((VarDecl.numberAll last ds).1.map (VarDecl.map Tag.unplaced),
        (VarDecl.numberAll last ds).2) := by
  induction ds generalizing last with
  | nil => rfl
  | cons d ds ih =>
    have hd : (d.map Extent.unplaced).number last =
        ((d.number last).1.map Tag.unplaced, (d.number last).2) := by
      rw [VarDecl.map, VarDecl.number, Expr.numberOption_unplaced]
      rfl
    simp only [List.map_cons, VarDecl.numberAll, hd, ih]

theorem Body.number_unplaced (last : Nat) (b : Body Extent) :
    (b.map Extent.unplaced).number last =
      ((b.number last).1.map Tag.unplaced, (b.number last).2) := by
  obtain ⟨note, ⟨varsNote, decls⟩, ⟨blockNote, stmts⟩⟩ := b
  simp only [Body.map, VarBlock.map, Block.map, Body.number, VarBlock.number, Block.numberPlain,
    VarDecl.numberAll_unplaced, Stmt.numberAll_unplaced]
  rfl

theorem FuncDef.numberAll_unplaced (last : Nat) (fs : List (FuncDef Extent)) :
    FuncDef.numberAll last (fs.map (FuncDef.map Extent.unplaced)) =
      ((FuncDef.numberAll last fs).1.map (FuncDef.map Tag.unplaced),
        (FuncDef.numberAll last fs).2) := by
  induction fs generalizing last with
  | nil => rfl
  | cons f fs ih =>
    have hf : (f.map Extent.unplaced).number last =
        ((f.number last).1.map Tag.unplaced, (f.number last).2) := by
      simp only [FuncDef.map, FuncDef.number, Param.numberAll_unplaced, Body.number_unplaced]
      rfl
    simp only [List.map_cons, FuncDef.numberAll, hf, ih]

theorem Script.number_unplaced (s : Script Extent) :
    (s.map Extent.unplaced).number = s.number.map Tag.unplaced := by
  obtain ⟨note, funcs, main⟩ := s
  cases main with
  | none =>
    simp only [Script.map, Script.number, FuncDef.numberAll_unplaced, Option.map_none]
    rfl
  | some b =>
    simp only [Script.map, Script.number, FuncDef.numberAll_unplaced, Option.map_some,
      Body.number_unplaced]
    rfl

/-- For every word `return` but one at the end, whether the next token is on its line. -/
def Token.returnLines : List Token → List Bool
  | word :: next :: more =>
    if word.kind = .returnWord then
      decide (next.line = word.line) :: Token.returnLines (next :: more)
    else
      Token.returnLines (next :: more)
  | _ => []

theorem Matched.congruent {ends : Token × Token} {ps : List (Token × Token)} (h : Matched ps)
    (hends : ends.1.bare = ends.2.bare)
    (hlines : Token.returnLines (ps.map Prod.fst) = Token.returnLines (ps.map Prod.snd)) :
    Congruent ends ps := by
  refine ⟨hends, h, fun word next more hmore hword ↦ ?_⟩
  induction ps with
  | nil => simp at hmore
  | cons p ps ih =>
    cases ps with
    | nil => simpa using hmore.length_le
    | cons q ps =>
      have hkind : p.2.kind = p.1.kind := h.head_kind rfl
      simp only [List.map_cons, Token.returnLines, hkind] at hlines
      rcases List.suffix_cons_iff.1 hmore with heq | hlater
      · obtain ⟨rfl, rfl, rfl⟩ : word = p ∧ next = q ∧ more = ps := by simpa using heq
        rw [if_pos hword, if_pos hword, List.cons.injEq] at hlines
        exact decide_eq_decide.1 hlines.1
      · refine ih h.tail ?_ hlater
        by_cases hp : p.1.kind = .returnWord
        · rw [if_pos hp, if_pos hp, List.cons.injEq] at hlines
          exact hlines.2
        · rwa [if_neg hp, if_neg hp] at hlines

theorem getElem?_length_append (before rest : List Token) (last : Token) :
    (before ++ rest ++ [last])[before.length]? = some (rest.headD last) := by
  cases rest <;> simp

/-- Sources with the same tokens are refused alike, or read to trees that differ in places only. -/
theorem Script.parse_agree {source source' : String}
    (htokens : (Lexer.tokens source).map Token.bare = (Lexer.tokens source').map Token.bare)
    (hlines : Token.returnLines (Lexer.tokens source) =
      Token.returnLines (Lexer.tokens source')) :
    (∃ e e', ∃ i : Nat, Script.parse source = .error e ∧ Script.parse source' = .error e' ∧
      e.fault = e'.fault ∧ (Lexer.allTokens source)[i]? = some e.token ∧
      (Lexer.allTokens source')[i]? = some e'.token) ∨
    ∃ s s', Script.parse source = .ok s ∧ Script.parse source' = .ok s' ∧
      s.map Tag.unplaced = s'.map Tag.unplaced := by
  obtain ⟨ps, hfst, hsnd, hmatched⟩ := Matched.exists_pairs htokens
  have hcongruent : Congruent (Lexer.endMark source, Lexer.endMark source') ps :=
    hmatched.congruent rfl (by rw [hfst, hsnd, hlines])
  have hagree : Parser.AgreeWhole _ _ ps (Parser.script (Lexer.endMark source) (ps.map Prod.fst))
      (Parser.script (Lexer.endMark source') (ps.map Prod.snd)) := Parser.script_agree hcongruent
  unfold Script.parse Lexer.allTokens
  rw [← hfst, ← hsnd]
  generalize Parser.script (Lexer.endMark source) (ps.map Prod.fst) = r,
    Parser.script (Lexer.endMark source') (ps.map Prod.snd) = r' at hagree
  cases hagree with
  | @ok t t' htrees =>
    refine .inr ⟨t.number, t'.number, rfl, rfl, ?_⟩
    rw [← Script.number_unplaced, ← Script.number_unplaced, htrees]
  | @error rest fault hrest =>
    obtain ⟨before, rfl⟩ := hrest
    refine .inl ⟨_, _, before.length, rfl, rfl, rfl, ?_, ?_⟩
    · simpa using getElem?_length_append (before.map Prod.fst) (rest.map Prod.fst) _
    · simpa using getElem?_length_append (before.map Prod.snd) (rest.map Prod.snd) _

section

variable {s s' : Script Tag}

/-- Walks over trees that differ in places only tell alike events and leave twins. -/
theorem Script.secondWalk_unplaced (h : s.map Tag.unplaced = s'.map Tag.unplaced) :
    ∃ g, (Node.script s).secondWalk.Twins (fun a b ↦ a.unplaced = b.unplaced) (fun _ ↦ True) g g
      (Node.script s').secondWalk := by
  obtain ⟨p, hfst, hsnd, hlinked⟩ := s.exists_pairs s' h
  have hwords : Linked (SameWords fun a b ↦ a.unplaced = b.unplaced) (p.walk fun _ ↦ false) :=
    hlinked.mono fun a b hab ↦ ⟨hab, congrArg (fun tag ↦ tag.extent.text) hab⟩
  have hheaders : s.funcs.map FuncDef.header = s'.funcs.map FuncDef.header := by
    have hfuncs := congrArg (fun t ↦ t.funcs.map FuncDef.header) h
    simpa [Script.map, Function.comp_def, FuncDef.header_map] using hfuncs
  have hmain : s.main.isSome = s'.main.isSome := by
    simpa [Script.map] using congrArg (fun t ↦ t.main.isSome) h
  obtain ⟨g, hflat, -⟩ := s.declare_flat ScopeTable.flat_initial
  have hcheck := Script.check_twins ⟨hflat, hflat, rfl, fun _ _ ↦ rfl⟩ p hwords
  rw [hfst, hsnd] at hcheck
  refine ⟨g, ?_⟩
  unfold Node.secondWalk Node.firstWalk
  change (s.check (s.declare .initial).scopes).Twins _ _ g g (s'.check (s'.declare .initial).scopes)
  rwa [← Script.declare_eq hheaders hmain]

end

/-- A finding without the place of its node. -/
def Finding.unplaced (f : Finding) : Finding := { f with node := f.node.unplaced }

/-- What a warning says, wherever it is attached. -/
def Warning.unplaced (w : Warning) : String × String := (w.code, w.message)

theorem map_eq_map_of_forall₂ {α β : Type} {f : α → β} {xs ys : List α}
    (h : List.Forall₂ (fun x y ↦ f x = f y) xs ys) : xs.map f = ys.map f := by
  rwa [← List.forall₂_eq_eq_eq, List.forall₂_map_left_iff, List.forall₂_map_right_iff]

/-- Layout makes no difference. If two sources have the same tokens, and after every `return` the
next token is on its line in both or in neither, then both are refused with the same fault at the
same one of their tokens, or both are read, to trees that differ in places only. Then an analysis
finds the same type for every number, the same outline of the scopes, the same validity, and in the
same order the same findings and warnings. -/
theorem layout_makes_no_difference {source source' : String}
    (htokens : (Lexer.tokens source).map Token.bare = (Lexer.tokens source').map Token.bare)
    (hlines : Token.returnLines (Lexer.tokens source) =
      Token.returnLines (Lexer.tokens source')) :
    (∃ e e', ∃ i : Nat, Script.parse source = .error e ∧ Script.parse source' = .error e' ∧
      e.fault = e'.fault ∧ (Lexer.allTokens source)[i]? = some e.token ∧
      (Lexer.allTokens source')[i]? = some e'.token) ∨
    ∃ s s', Script.parse source = .ok s ∧ Script.parse source' = .ok s' ∧
      s.map Tag.unplaced = s'.map Tag.unplaced ∧ ∀ options,
      (∀ id, (s.analyze options).types.get? id = (s'.analyze options).types.get? id) ∧
      (s.analyze options).scopes.outline globalId = (s'.analyze options).scopes.outline globalId ∧
      (s.analyze options).isOk = (s'.analyze options).isOk ∧
      ((Node.script s).findings options).map Finding.unplaced =
        ((Node.script s').findings options).map Finding.unplaced ∧
      (s.analyze options).warnings.map Warning.unplaced =
        (s'.analyze options).warnings.map Warning.unplaced := by
  rcases Script.parse_agree htokens hlines with herror | ⟨s, s', hs, hs', htrees⟩
  · exact .inl herror
  refine .inr ⟨s, s', hs, hs', htrees, fun options ↦ ?_⟩
  obtain ⟨g, hwalks⟩ := Script.secondWalk_unplaced htrees
  have hfindings : ((Node.script s).findings options).map Finding.unplaced =
      ((Node.script s').findings options).map Finding.unplaced := by
    apply map_eq_map_of_forall₂
    apply (findings_of_alike hwalks.events).imp
    rintro ⟨node, category, message⟩ ⟨node', category', message'⟩ ⟨hnode, rfl, rfl⟩
    exact congrArg (Finding.mk · category message) hnode
  refine ⟨fun id ↦ ?_, hwalks.scopes.outline_eq, ?_, hfindings, ?_⟩
  · have hid : ∀ a b : Tag, a.unplaced = b.unplaced → a.id = b.id := fun _ _ hab ↦
      (Tag.mk.inj hab).1
    unfold Script.analyze Report.types
    rw [Node.analysis_analyze, Node.analysis_analyze]
    exact congrFun (types_of_alike hid hwalks.events rfl) id
  · unfold Script.analyze
    rw [Node.isOk_eq_isEmpty, Node.isOk_eq_isEmpty, ← List.isEmpty_map, hfindings,
      List.isEmpty_map]
  · apply map_eq_map_of_forall₂
    apply (cautions_of_alike hwalks.events).imp
    rintro w w' ⟨-, hcode, hmessage⟩
    exact congrArg₂ Prod.mk hcode hmessage

/-- Two statements on one line, and spread over lines with a comment between them. -/
theorem layout_makes_no_difference_spread :
    (Lexer.tokens "x=1 return x").map Token.bare =
      (Lexer.tokens "x\n=1 //\nreturn\tx").map Token.bare ∧
    Token.returnLines (Lexer.tokens "x=1 return x") =
      Token.returnLines (Lexer.tokens "x\n=1 //\nreturn\tx") ∧
    ∃ s s', Script.parse "x=1 return x" = .ok s ∧
      Script.parse "x\n=1 //\nreturn\tx" = .ok s' ∧
      s.map Tag.unplaced = s'.map Tag.unplaced ∧
      ((Node.script s).findings {}).map Finding.unplaced =
        ((Node.script s').findings {}).map Finding.unplaced := by
  obtain ⟨htokens, hlines, t, ht⟩ :
      (Lexer.tokens "x=1 return x").map Token.bare =
        (Lexer.tokens "x\n=1 //\nreturn\tx").map Token.bare ∧
      Token.returnLines (Lexer.tokens "x=1 return x") =
        Token.returnLines (Lexer.tokens "x\n=1 //\nreturn\tx") ∧
      ∃ t, Script.parse "x=1 return x" = .ok t := by
    refine ⟨by cbv, by cbv, ?_, ?parse⟩
    case parse =>
      cbv
      rfl
  refine ⟨htokens, hlines, ?_⟩
  rcases layout_makes_no_difference htokens hlines with ⟨e, e', i, he, -⟩ | hsame
  · rw [ht] at he
    cases he
  · obtain ⟨s, s', hs, hs', htrees, hanalyses⟩ := hsame
    obtain ⟨-, -, -, hfindings, -⟩ := hanalyses {}
    exact ⟨s, s', hs, hs', htrees, hfindings⟩

end ScriptAnalysis
