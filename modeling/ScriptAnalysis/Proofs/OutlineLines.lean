import ScriptAnalysis.Proofs.Regrouping
import ScriptAnalysis.Proofs.Runs

/-!
# The lines of outlines

An outline does not depend on the notes of a tree. Each of its lines begins with a word, and neither
a statement nor a declaration reaches over the end of its line, so the depth of a line, its first
word and the rest of it can be read off the outline.
-/

namespace ScriptAnalysis

variable {α β : Type}

/-- A statement without its notes. -/
def Stmt.shape (s : Stmt α) : Stmt Unit := s.map fun _ ↦ ()

/-- A program without its notes. -/
def Script.shape (s : Script α) : Script Unit := s.map fun _ ↦ ()

mutual

theorem Stmt.outline_map (f : α → β) (depth : Nat) (s : Stmt α) :
    (s.map f).outline depth = s.outline depth := by
  match s with
  | .assign _ _ _ => rw [Stmt.map, Stmt.outline, Stmt.outline, Expr.outline_map]
  | .loop _ _ body =>
    rw [Stmt.map, Stmt.outline, Stmt.outline, Expr.outline_map, body.outline_map f]
  | .branch _ _ whenTrue none =>
    rw [Stmt.map, Stmt.outline, Stmt.outline, Expr.outline_map, whenTrue.outline_map f]
  | .branch _ _ whenTrue (some whenFalse) =>
    rw [Stmt.map, Stmt.outline, Stmt.outline, Expr.outline_map, whenTrue.outline_map f,
      whenFalse.outline_map f]
  | .print _ _ => rw [Stmt.map, Stmt.outline, Stmt.outline, Expr.outline_map]
  | .ret _ none => rfl
  | .ret _ (some _) => rw [Stmt.map, Stmt.outline, Stmt.outline, Expr.outline_map]
  | .call note _ callee args =>
    rw [Stmt.map, Stmt.outline, Stmt.outline, ← Expr.outline_map f (.call note callee args),
      Expr.map]

theorem Block.outline_map (f : α → β) (depth : Nat) (b : Block α) :
    (b.map f).outline depth = b.outline depth := by
  match b with
  | .mk _ stmts => exact Stmt.outlines_mapAll f depth stmts

theorem Stmt.outlines_mapAll (f : α → β) (depth : Nat) (stmts : List (Stmt α)) :
    Stmt.outlines depth (Stmt.mapAll f stmts) = Stmt.outlines depth stmts := by
  match stmts with
  | [] => rfl
  | s :: stmts =>
    rw [Stmt.mapAll, Stmt.outlines, Stmt.outlines, s.outline_map f, Stmt.outlines_mapAll f]

end

theorem VarDecl.outline_map (f : α → β) (depth : Nat) (d : VarDecl α) :
    (d.map f).outline depth = d.outline depth := by
  obtain ⟨note, name, type, init⟩ := d
  cases init with
  | none => rfl
  | some e => simp only [VarDecl.map, VarDecl.outline, Option.map_some, Expr.outline_map]

theorem Body.outline_map (f : α → β) (depth : Nat) (b : Body α) :
    (b.map f).outline depth = b.outline depth := by
  have hdecls : VarDecl.outline depth ∘ VarDecl.map f = VarDecl.outline depth :=
    funext fun d ↦ d.outline_map f depth
  simp only [Body.map, VarBlock.map, Body.outline, List.map_map, hdecls, Block.outline_map]

theorem FuncDef.outline_map (f : α → β) (g : FuncDef α) : (g.map f).outline = g.outline := by
  have hparams : (g.params.map (Param.map f)).map Param.outline = g.params.map Param.outline :=
    List.map_map
  rw [FuncDef.map, FuncDef.outline, FuncDef.outline, hparams, Body.outline_map]

theorem Script.outline_map (f : α → β) (s : Script α) : (s.map f).outline = s.outline := by
  have hfuncs : FuncDef.outline ∘ FuncDef.map f = FuncDef.outline :=
    funext fun g ↦ g.outline_map f
  obtain ⟨note, funcs, main⟩ := s
  cases main with
  | none => simp only [Script.map, Script.outline, List.map_map, hfuncs, Option.map_none]
  | some b =>
    simp only [Script.map, Script.outline, List.map_map, hfuncs, Option.map_some, Body.outline_map]

mutual

/-- Only a lexeme could bring a line feed into the outline of an expression. -/
theorem Expr.newline_mem_outline_iff (e : Expr α) :
    '\n' ∈ e.outline.toList ↔ '\n' ∈ e.shape.spelling.toList := by
  match e with
  | .int _ _ | .string _ _ | .ident _ _ => rfl
  | .bool _ value => cases value <;> rfl
  | .negate _ _ operand =>
    have hoperand := operand.newline_mem_outline_iff
    simp only [Expr.shape, Expr.map, Expr.outline, Expr.spelling, String.toList_append,
      List.mem_append] at hoperand ⊢
    rw [hoperand]
  | .parens _ inner =>
    have hinner := inner.newline_mem_outline_iff
    simp only [Expr.shape, Expr.map, Expr.outline, Expr.spelling, String.toList_append,
      List.mem_append] at hinner ⊢
    rw [hinner]
  | .binary _ _ left right =>
    have hleft := left.newline_mem_outline_iff
    have hright := right.newline_mem_outline_iff
    simp only [Expr.shape, Expr.map, Expr.outline, Expr.spelling, String.toList_append,
      List.mem_append] at hleft hright ⊢
    rw [hleft, hright]
    simp
  | .call _ _ args =>
    have hargs := Expr.newline_mem_outlines_iff args
    simp only [Expr.shape, Expr.map, Expr.outline, Expr.spelling, String.toList_append,
      List.mem_append]
    rw [hargs]

theorem Expr.newline_mem_outlines_iff (es : List (Expr α)) :
    '\n' ∈ (", ".intercalate (Expr.outlines es)).toList ↔
      '\n' ∈ (",".intercalate (Expr.spellings (Expr.mapAll (fun _ ↦ ()) es))).toList := by
  match es with
  | [] => rfl
  | [e] =>
    rw [Expr.outlines, Expr.outlines, Expr.mapAll, Expr.mapAll, Expr.spellings, Expr.spellings,
      String.intercalate_singleton, String.intercalate_singleton]
    exact e.newline_mem_outline_iff
  | e :: e' :: es =>
    have hfirst := e.newline_mem_outline_iff
    have hothers := Expr.newline_mem_outlines_iff (e' :: es)
    rw [Expr.outlines, Expr.mapAll, Expr.spellings,
      String.intercalate_cons_of_ne_nil (by simp [Expr.outlines]),
      String.intercalate_cons_of_ne_nil (by simp [Expr.mapAll, Expr.spellings])]
    simp only [String.toList_append, List.mem_append, hothers, hfirst, Expr.shape]
    simp

end

theorem Lexer.Lexed.newline_notMem {t : Token} (h : Lexer.Lexed t) : '\n' ∉ t.lexeme.toList := by
  obtain ⟨c, rest, count, hpiece, hlexeme⟩ := h
  have hsolid := Lexer.not_beginsTrivia_of_piece hpiece
  obtain ⟨kind, hkind, hmunches⟩ := Lexer.munches_piece hsolid
  rw [hpiece] at hmunches
  rw [hlexeme]
  exact hmunches.newline_notMem hsolid

namespace Grammar

open Lexer (Lexed IsWord isWordPart)

variable {ts us : List Token} {e e' : Expr Extent}

theorem Expression.newline_notMem_outline (h : Expression 3 ts e) (hts : ∀ t ∈ ts, Lexed t) :
    '\n' ∉ e.outline.toList := by
  rw [e.newline_mem_outline_iff, ← h.glued_eq hts, Lexer.glued, List.mem_flatMap]
  rintro ⟨t, ht, hmem⟩
  exact (hts t ht).newline_notMem hmem

/-- Expressions with the same outline have the same shape. -/
theorem Expression.shape_eq (h : Expression 3 ts e) (h' : Expression 3 us e')
    (hts : ∀ t ∈ ts, Lexed t) (hus : ∀ t ∈ us, Lexed t) (houtline : e.outline = e'.outline) :
    e.shape = e'.shape := by
  obtain ⟨tree, hparse, hshape⟩ := h.exists_parse_outline hts
  obtain ⟨tree', hparse', hshape'⟩ := h'.exists_parse_outline hus
  rw [houtline, hparse'] at hparse
  cases hparse
  rw [← e.shape.ungrouped_grouped, ← hshape, hshape', Expr.ungrouped_grouped]

end Grammar

namespace Lexer

theorem IsWord.parts {word : List Char} (h : IsWord word) : ∀ c ∈ word, isWordPart c = true := by
  cases word with
  | nil => exact h.elim
  | cons c word =>
    rw [List.forall_mem_cons]
    exact ⟨Bool.or_eq_true_iff.2 (.inl h.1), h.2⟩

theorem isWord_of_reserved : ∀ kind ∈ reservedWords, IsWord kind.name.toList := by
  simp [reservedWords, Kind.name, IsWord, IsRun]
  decide

/-- Names and types are words that are not reserved. -/
theorem Lexed.isWord {t : Token} (h : Lexed t) (hkind : t.kind ∈ [Kind.ident, .type]) :
    IsWord t.lexeme.toList ∧ Kind.ofWord t.lexeme = t.kind := by
  obtain ⟨text, hmunches⟩ := h.munches
  rw [← String.ofList_toList (s := t.lexeme), String.toList_ofList]
  generalize t.kind = kind at *
  generalize t.lexeme.toList = lexeme at *
  cases hmunches with
  | word hword hof => exact ⟨hword.belongs, (wordKind_iff.1 hof).symm⟩
  | symbol hsymbol =>
    have hnone : ∀ kind ∈ symbols, kind ∉ [Kind.ident, .type] := by decide
    exact absurd hkind (hnone _ hsymbol)
  | number | literal | unclosed | stray => exact absurd hkind (by decide)

end Lexer

open Lexer (Lexed IsWord isWordPart)

/-- Whether a text cannot go on with a word that stands before it. -/
def StopsWord (text : String) : Prop := ∀ c ∈ text.toList.head?, isWordPart c = false

theorem StopsWord.of_head {text : String} {c : Char} (h : text.toList.head? = some c)
    (hc : isWordPart c = false) : StopsWord text := by
  intro d hd
  rw [h] at hd
  cases hd
  exact hc

theorem word_append_inj {word word' more more' : String} (hword : IsWord word.toList)
    (hmore : StopsWord more) (hword' : IsWord word'.toList) (hmore' : StopsWord more')
    (h : word ++ more = word' ++ more') : word = word' ∧ more = more' := by
  rw [← String.toList_inj, String.toList_append, String.toList_append] at h
  have hparts := append_inj_of_run hword.parts hmore hword'.parts hmore' h
  rwa [String.toList_inj, String.toList_inj] at hparts

/-- Whether a word and what follows it are a line of an outline. -/
structure IsLine (word tail : String) : Prop where
  word : IsWord word.toList
  stops : StopsWord tail
  ends : '\n' ∉ tail.toList

/-- How many blanks come before the first line of a text, and its first word. -/
def lineStart (text : String) : Nat × List Char :=
  ((text.toList.takeWhile (· = ' ')).length,
    (text.toList.dropWhile (· = ' ')).takeWhile isWordPart)

namespace IsLine

variable {word word' tail tail' more more' : String} {depth : Nat}

theorem word_ne_nil (h : IsLine word tail) : word.toList ≠ [] := by
  intro hnil
  have hword := h.word
  rw [hnil] at hword
  exact hword.elim

theorem newline_notMem (h : IsLine word tail) : '\n' ∉ (word ++ tail).toList := by
  rw [String.toList_append, List.mem_append, not_or]
  exact ⟨Lexer.notMem_of_isRun (by decide) (by decide) h.word, h.ends⟩

theorem lineStart_eq (h : IsLine word tail) (depth : Nat) (more : String) :
    lineStart (outlineLine depth (word ++ tail) ++ more) = (2 * depth, word.toList) := by
  have hlist : (outlineLine depth (word ++ tail) ++ more).toList =
      List.replicate (2 * depth) ' ' ++ (word.toList ++ (tail.toList ++ '\n' :: more.toList)) := by
    simp [outlineLine, indent]
  have hblanks : ∀ c ∈ List.replicate (2 * depth) ' ', decide (c = ' ') = true := by
    intro c hc
    exact decide_eq_true (List.eq_of_mem_replicate hc)
  have hfirst : ∀ c ∈ (word.toList ++ (tail.toList ++ '\n' :: more.toList)).head?,
      decide (c = ' ') = false := by
    intro c hc
    have hpart : isWordPart c = true := by
      rw [List.head?_append_of_ne_nil _ h.word_ne_nil] at hc
      exact h.word.parts c (List.mem_of_mem_head? hc)
    rw [decide_eq_false_iff_not]
    intro hblank
    rw [hblank] at hpart
    exact absurd hpart (by decide)
  have hstops : ∀ c ∈ (tail.toList ++ '\n' :: more.toList).head?, isWordPart c = false := by
    have htail := h.stops
    unfold StopsWord at htail
    cases htext : tail.toList with
    | nil => simp [Lexer.isWordPart_newline]
    | cons c cs => rwa [htext] at htail
  rw [lineStart, hlist, (span_append hblanks hfirst).1, (span_append hblanks hfirst).2,
    (span_append h.word.parts hstops).1, List.length_replicate]

/-- What a line says and what follows it can be told from the text that begins with it. -/
theorem inj (h : IsLine word tail) (h' : IsLine word' tail')
    (heq : outlineLine depth (word ++ tail) ++ more = outlineLine depth (word' ++ tail') ++ more') :
    word = word' ∧ tail = tail' ∧ more = more' := by
  have hline {text : String} (hends : '\n' ∉ text.toList) :
      ∀ c ∈ text.toList, decide (c ≠ '\n') = true := by
    intro c hc
    rw [decide_eq_true_eq]
    rintro rfl
    exact hends hc
  have hlist : (word ++ tail).toList ++ '\n' :: more.toList =
      (word' ++ tail').toList ++ '\n' :: more'.toList := by
    simp only [outlineLine, String.append_assoc, String.append_right_inj] at heq
    rw [← String.toList_inj] at heq
    simpa using heq
  have hparts := append_inj_of_run (hline h.newline_notMem) (by simp) (hline h'.newline_notMem)
    (by simp) hlist
  have hwords := word_append_inj h.word h.stops h'.word h'.stops (String.toList_inj.1 hparts.1)
  exact ⟨hwords.1, hwords.2, String.toList_inj.1 (List.cons.inj hparts.2).2⟩

end IsLine

end ScriptAnalysis
