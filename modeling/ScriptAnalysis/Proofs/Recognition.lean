import ScriptAnalysis.Program.Read
import ScriptAnalysis.Proofs.Lexing
import ScriptAnalysis.Proofs.Outcome.Program

/-!
# The parser accepts exactly its grammar

A source is read as a program if and only if its tokens are derived by the grammar, and the tree
read is the one of the derivation. There is at most one such tree. That its operators associate to
the left, on three levels, is said of the tree alone.
-/

namespace ScriptAnalysis

mutual

/-- Whether the operators of an expression bind as they should where those of `level` and below may
stand without parentheses: an operator has operators of its own level only on its left. -/
def Expr.Layered {α : Type} (level : Nat) : Expr α → Prop
  | .int _ _ | .string _ _ | .bool _ _ | .ident _ _ => True
  | .negate _ _ operand => operand.Layered 0
  | .parens _ inner => inner.Layered 3
  | .binary _ op left right =>
    op.level ≤ level ∧ left.Layered op.level ∧ right.Layered (op.level - 1)
  | .call _ _ args => Expr.AllLayered args

def Expr.AllLayered {α : Type} : List (Expr α) → Prop
  | [] => True
  | first :: others => first.Layered 3 ∧ Expr.AllLayered others

end

theorem Expr.Layered.mono {α : Type} {level level' : Nat} {e : Expr α} (h : e.Layered level)
    (hle : level ≤ level') : e.Layered level' := by
  cases e with
  | binary note op left right =>
    obtain ⟨hop, hleft, hright⟩ := h
    exact ⟨Nat.le_trans hop hle, hleft, hright⟩
  | _ => exact h

namespace Grammar

mutual

theorem Expression.layered {level : Nat} {ts : List Token} {e : Expr Extent} :
    Expression level ts e → e.Layered level
  | .unary h => h.layered
  | .operand h => h.layered.mono (Nat.le_succ _)
  | .operation hl _ hlevel hr => by
    refine ⟨Nat.le_of_eq hlevel, ?_, ?_⟩
    · rw [hlevel]
      exact hl.layered
    · rw [hlevel]
      exact hr.layered

theorem Unary.layered {ts : List Token} {e : Expr Extent} : Unary ts e → e.Layered 0
  | .negate _ h => h.layered
  | .primary h => h.layered

theorem Primary.layered {ts : List Token} {e : Expr Extent} : Primary ts e → e.Layered 0
  | .int _ | .string _ | .true _ | .false _ | .ident _ => trivial
  | .call (.mk _ _ h) => h.layered
  | .parens _ h _ => h.layered

theorem Arguments.layered {ts : List Token} {args : List (Expr Extent)} :
    Arguments ts args → Expr.AllLayered args
  | .none _ => trivial
  | .some h => h.layered

theorem ArgumentList.layered {ts : List Token} {args : List (Expr Extent)} :
    ArgumentList ts args → Expr.AllLayered args
  | .last h _ => ⟨h.layered, trivial⟩
  | .more h _ hs => ⟨h.layered, hs.layered⟩

end

theorem Program.unique {ts : List Token} {s s' : Script Extent} (h : Program ts s)
    (h' : Program ts s') : s = s' := by
  obtain ⟨us, stop, rfl, -, hread⟩ := h.read
  obtain ⟨us', stop', hts, -, hread'⟩ := h'.read
  obtain ⟨rfl, rfl⟩ : us = us' ∧ stop = stop' := by simpa using hts
  rw [hread] at hread'
  cases hread'
  rfl

theorem Standalone.unique {ts : List Token} {e e' : Expr Extent} (h : Standalone ts e)
    (h' : Standalone ts e') : e = e' := by
  obtain ⟨us, stop, rfl, -, hread⟩ := h.read
  obtain ⟨us', stop', hts, -, hread'⟩ := h'.read
  obtain ⟨rfl, rfl⟩ : us = us' ∧ stop = stop' := by simpa using hts
  rw [hread] at hread'
  cases hread'
  rfl

end Grammar

namespace Parser

open Grammar

variable {endMark : Token} {ts : List Token}

theorem script_eq_ok_iff (hmark : endMark.kind = .eof) (hts : ∀ t ∈ ts, t.kind ≠ .eof)
    {s : Script Extent} : script endMark ts = .ok s ↔ Program (ts ++ [endMark]) s := by
  constructor
  · intro hread
    have h := script_outcome hmark hts
    rwa [SourceOutcome, hread] at h
  · intro h
    obtain ⟨us, stop, hus, -, hread⟩ := h.read
    obtain ⟨rfl, rfl⟩ : ts = us ∧ endMark = stop := by simpa using hus
    exact hread

theorem wholeExpression_eq_ok_iff (hmark : endMark.kind = .eof) {e : Expr Extent} :
    wholeExpression endMark ts = .ok e ↔ Standalone (ts ++ [endMark]) e := by
  constructor
  · intro hread
    have h := wholeExpression_outcome hmark ts
    rwa [SourceOutcome, hread] at h
  · intro h
    obtain ⟨us, stop, hus, -, hread⟩ := h.read
    obtain ⟨rfl, rfl⟩ : ts = us ∧ endMark = stop := by simpa using hus
    exact hread

end Parser

theorem map_eq_ok_iff {ε α β : Type} {f : α → β} {r : Except ε α} {y : β} :
    r.map f = .ok y ↔ ∃ x, r = .ok x ∧ f x = y := by
  cases r <;> simp [Except.map]

theorem Script.parse_eq_ok_iff {source : String} {s : Script Tag} :
    Script.parse source = .ok s ↔
      ∃ tree, Grammar.Program (Lexer.allTokens source) tree ∧ tree.number = s := by
  have hts : ∀ t ∈ Lexer.tokens source, t.kind ≠ .eof := Lexer.scan_kind_ne_eof
  rw [Script.parse, map_eq_ok_iff]
  simp only [Parser.script_eq_ok_iff (Lexer.endMark_kind source) hts, Lexer.allTokens]

theorem Expr.parse_eq_ok_iff {source : String} {e : Expr Tag} :
    Expr.parse source = .ok e ↔
      ∃ tree, Grammar.Standalone (Lexer.allTokens source) tree ∧ (tree.number 0).1 = e := by
  rw [Expr.parse, map_eq_ok_iff]
  simp only [Parser.wholeExpression_eq_ok_iff (Lexer.endMark_kind source), Lexer.allTokens]

/-- Reading a source gives a tree exactly if the tokens of the source are derived with that tree,
for programs and for single expressions. No tokens are derived with two trees, and the operators in
a derived tree bind by their levels and associate to the left. -/
theorem parse_iff_derived :
    (∀ source s, Script.parse source = .ok s ↔
      ∃ tree, Grammar.Program (Lexer.allTokens source) tree ∧ tree.number = s) ∧
    (∀ source e, Expr.parse source = .ok e ↔
      ∃ tree, Grammar.Standalone (Lexer.allTokens source) tree ∧ (tree.number 0).1 = e) ∧
    (∀ ts s s', Grammar.Program ts s → Grammar.Program ts s' → s = s') ∧
    (∀ ts e e', Grammar.Standalone ts e → Grammar.Standalone ts e' → e = e') ∧
    ∀ ts e, Grammar.Expression 3 ts e → e.Layered 3 :=
  ⟨fun _ _ ↦ Script.parse_eq_ok_iff, fun _ _ ↦ Expr.parse_eq_ok_iff,
    fun _ _ _ ↦ Grammar.Program.unique, fun _ _ _ ↦ Grammar.Standalone.unique,
    fun _ _ ↦ Grammar.Expression.layered⟩

end ScriptAnalysis
