import ScriptAnalysis.Proofs.LogKeys
import ScriptAnalysis.Proofs.NodeTexts

/-!
# Expressions are read again from their texts

The text of an expression is its lexemes with nothing between them, and can be read as a source of
its own. No two lexemes of an expression run together, so what is read is the expression again with
the same texts inside. So expressions with the same text have the same shape, in whatever sources
they stand.
-/

namespace ScriptAnalysis

namespace Grammar

open Lexer (Lexed)

variable {ts : List Token} {e : Expr Extent}

/-- The text of an expression has the tokens that the expression was read from. -/
theorem Expression.map_bare_tokens_text (h : Expression 3 ts e) (hts : ∀ t ∈ ts, Lexed t) :
    (Lexer.tokens e.note.text).map Token.bare = ts.map Token.bare := by
  rw [Lexer.tokens, h.toList_text]
  exact Lexer.map_bare_scan_glued hts h.solid.legal h.solid.apart (1, 1)

theorem Expression.exists_parse_text (h : Expression 3 ts e) (hts : ∀ t ∈ ts, Lexed t) :
    ∃ e', Expr.parse e.note.text = .ok e' ∧ e'.map Tag.text = e.map Extent.text := by
  obtain ⟨ps, hfst, hsnd, hps⟩ := Matched.exists_pairs (h.map_bare_tokens_text hts).symm
  obtain ⟨tree, htree, htext⟩ := h.placed hps hfst
  rw [hsnd] at htree
  have hwhole : Standalone (Lexer.allTokens e.note.text) tree := .mk htree (Lexer.endMark_kind _)
  exact ⟨_, Expr.parse_eq_ok_iff.2 ⟨tree, hwhole, rfl⟩, (Expr.map_text_number 0 tree).trans htext⟩

end Grammar

/-- Every expression of a tree was read from tokens that are pieces of the source. -/
theorem Node.ReadFrom.exists_expression {source : String} {root : Node Tag} {e : Expr Tag}
    (h : root.ReadFrom source) (he : .expr e ∈ root.all) :
    ∃ ts, (∀ t ∈ ts, Lexer.Lexed t) ∧ Grammar.Expression 3 ts (e.map Tag.extent) :=
  h.exists_spells he

/-- The text of an expression tells the expression. Read as a source of its own it gives the
expression with the same texts inside, and expressions with the same text are the same but for their
numbers and places, whether they stand in one source or in two. So entries that are kept under one
key of a log, if they are about expressions, are about the same expression. -/
theorem text_tells_expression {source : String} {root : Node Tag} (h : root.ReadFrom source)
    {e : Expr Tag} (he : .expr e ∈ root.all) :
    (∃ e', Expr.parse e.note.text = .ok e' ∧ e'.map Tag.text = e.map Tag.text) ∧
    ∀ {source' : String} {root' : Node Tag}, root'.ReadFrom source' →
      ∀ {e' : Expr Tag}, .expr e' ∈ root'.all →
        (e.note.text = e'.note.text → e.map Tag.text = e'.map Tag.text) ∧
        ∀ {violation violation' : Violation} {entry entry' : Entry},
          Event.entry? (.reported e.note violation) = some entry →
          Event.entry? (.reported e'.note violation') = some entry' →
          entry.sameKey entry' = true → e.map Tag.text = e'.map Tag.text := by
  obtain ⟨ts, hts, hexpr⟩ := h.exists_expression he
  constructor
  · obtain ⟨e', hparse, htexts⟩ := hexpr.exists_parse_text hts
    rw [Expr.note_map] at hparse
    exact ⟨e', hparse, htexts.trans e.map_text_extent⟩
  intro source' root' h' e' he'
  obtain ⟨us, hus, hexpr'⟩ := h'.exists_expression he'
  have hsame (htext : e.note.text = e'.note.text) : e.map Tag.text = e'.map Tag.text := by
    rw [← e.map_text_extent, ← e'.map_text_extent]
    apply hexpr.map_text_eq hexpr' hts hus
    rw [Expr.note_map, Expr.note_map]
    exact htext
  refine ⟨hsame, ?_⟩
  rintro violation violation' entry entry' ⟨⟩ ⟨⟩ hkey
  exact hsame (congrArg Prod.snd (Entry.sameKey_iff_key.1 hkey))

/-- An expression of a program can be read again, and is the same as an expression that stands
alone, for all the blanks that the two are written with. -/
theorem text_tells_expression_spaced :
    ∃ s e alone, Script.parse "print -x / 2 == f( y , \"a b\" )" = .ok s ∧
      .expr e ∈ (Node.script s).all ∧ e.note.text = "-x/2==f(y,\"a b\")" ∧
      (∃ e', Expr.parse "-x/2==f(y,\"a b\")" = .ok e' ∧ e'.map Tag.text = e.map Tag.text) ∧
      Expr.parse "- x/2 == f (y, \"a b\")" = .ok alone ∧ e.map Tag.text = alone.map Tag.text := by
  obtain ⟨s, hs, e, he, htext⟩ : ∃ s, Script.parse "print -x / 2 == f( y , \"a b\" )" = .ok s ∧
      ∃ e, (Node.script s).all[5]? = some (.expr e) ∧ e.note.text = "-x/2==f(y,\"a b\")" := by
    refine ⟨?_, ?parse, ?_⟩
    case parse =>
      cbv
      rfl
    refine ⟨?_, ?found, ?_⟩
    case found =>
      cbv
      rfl
    rfl
  obtain ⟨alone, halone, htext'⟩ : ∃ alone, Expr.parse "- x/2 == f (y, \"a b\")" = .ok alone ∧
      alone.note.text = "-x/2==f(y,\"a b\")" := by
    refine ⟨?_, ?parse, ?_⟩
    case parse =>
      cbv
      rfl
    rfl
  have hmem := List.mem_of_getElem? he
  have hself : .expr alone ∈ (Node.expr alone).all := Node.mem_all_self _
  obtain ⟨hread, hsame⟩ := text_tells_expression (.script hs) hmem
  rw [htext] at hread
  exact ⟨s, e, alone, hs, hmem, htext, hread, halone,
    (hsame (.expr halone) hself).1 (htext.trans htext'.symm)⟩

end ScriptAnalysis
