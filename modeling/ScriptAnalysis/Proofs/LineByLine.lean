import ScriptAnalysis.Proofs.Decoding
import ScriptAnalysis.Proofs.Segments

/-!
# Reading line by line

A source may be cut at any line feed, be it in a comment, behind a quote that nothing closes or
behind a backslash: the tokens of both parts together are those of the whole, where those of the
second part stand lower by the lines of the first.
-/

namespace ScriptAnalysis

/-- The token that stands some lines lower. -/
def Token.lower (count : Nat) (t : Token) : Token := { t with line := t.line + count }

namespace Lexer

theorem advance_lower (count : Nat) (here : Nat × Nat) (cs : List Char) :
    advance (here.1 + count, here.2) cs = ((advance here cs).1 + count, (advance here cs).2) := by
  induction cs generalizing here with
  | nil => rfl
  | cons c cs ih =>
    rw [advance, advance]
    by_cases hc : c = '\n'
    · rw [if_pos hc, if_pos hc, Nat.add_right_comm]
      exact ih (here.1 + 1, 1)
    · rw [if_neg hc, if_neg hc]
      exact ih (here.1, here.2 + 1)

theorem scan_lower (count : Nat) (here : Nat × Nat) (text : List Char) :
    scan (here.1 + count, here.2) text = (scan here text).map (Token.lower count) := by
  fun_induction scan here text with
  | case1 here => rw [scan, List.map_nil]
  | case2 here c rest size lexeme later kind hpiece ih =>
    rw [scan_of_kind (by rw [hpiece]), hpiece, advance_lower, ih, List.map_cons]
    rfl
  | case3 here c rest size lexeme later hpiece ih =>
    rw [scan_of_trivia (by rw [hpiece]), hpiece, advance_lower, ih]

/-- The line below a source. -/
theorem advance_line_below (source : List Char) :
    (advance (1, 1) source).1 + 1 = 1 + (1 + source.count '\n') := by
  have hplace : advance (1, 1) source = _ := advance_after [] source
  rw [hplace, List.nil_append, lineAfter, Nat.add_comm]

theorem endMark_append_newline (source more : String) :
    endMark (source ++ "\n" ++ more) =
      (endMark more).lower (1 + source.toList.count '\n') := by
  have hlist : (source ++ "\n" ++ more).toList = source.toList ++ '\n' :: more.toList := by simp
  have hplace : advance (1, 1) (source.toList ++ '\n' :: more.toList) =
      ((advance (1, 1) more.toList).1 + (1 + source.toList.count '\n'),
        (advance (1, 1) more.toList).2) := by
    calc
      _ = advance ((advance (1, 1) source.toList).1 + 1, 1) more.toList := by
        rw [advance_append, advance, if_pos rfl]
      _ = advance (1 + (1 + source.toList.count '\n'), 1) more.toList := by
        rw [advance_line_below]
      _ = _ := advance_lower _ (1, 1) _
  rw [endMark, hlist, hplace]
  rfl

end Lexer

/-- The tokens of two texts with a line feed between them are those of the first without its end and
those of the second, lower by as many lines as there are line feeds before it. Texts may be joined
like this before or after they are decoded. -/
theorem tokens_line_by_line :
    (∀ first second : String,
      Lexer.allTokens (first ++ "\n" ++ second) =
        (Lexer.allTokens first).dropLast ++
          (Lexer.allTokens second).map (Token.lower (1 + first.toList.count '\n'))) ∧
    ∀ front back : List UInt8,
      Text.ofBytes (front ++ Text.lineFeed :: back) =
        Text.ofBytes front ++ "\n" ++ Text.ofBytes back := by
  refine ⟨fun first second ↦ ?_, Text.ofBytes_append_lineFeed⟩
  have hsecond : Lexer.scan ((Lexer.advance (1, 1) first.toList).1 + 1, 1) second.toList =
      (Lexer.tokens second).map (Token.lower (1 + first.toList.count '\n')) := by
    rw [Lexer.advance_line_below]
    exact Lexer.scan_lower _ (1, 1) _
  calc
    _ = Lexer.tokens first ++ (Lexer.tokens second).map (Token.lower _) ++
        [(Lexer.endMark second).lower _] := by
      rw [Lexer.allTokens, Lexer.tokens_append_newline, hsecond, Lexer.endMark_append_newline]
    _ = Lexer.tokens first ++ (Lexer.allTokens second).map (Token.lower _) := by
      rw [Lexer.allTokens, List.map_append, List.append_assoc]
      rfl
    _ = _ := by rw [Lexer.allTokens, Lexer.allTokens, List.dropLast_concat]

end ScriptAnalysis
