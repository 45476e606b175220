import ScriptAnalysis.Token.Lexer

/-!
# Tokens of a source

Every token is a piece of its source, and no piece reaches over the end of a line. So the tokens of
some lines are those of the first lines followed by those of the others.
-/

namespace ScriptAnalysis

namespace Lexer

open Text (isBlank)

theorem endMark_kind (source : String) : (endMark source).kind = .eof := rfl

theorem ofSymbol_ne_eof (c : Char) : Kind.ofSymbol c ≠ .eof := by
  unfold Kind.ofSymbol
  split <;> decide

theorem ofWord_ne_eof (word : String) : Kind.ofWord word ≠ .eof := by
  unfold Kind.ofWord
  split <;> decide

theorem ofSymbolEquals?_ne_eof (c : Char) : Kind.ofSymbolEquals? c ≠ some .eof := by
  unfold Kind.ofSymbolEquals?
  split <;> decide

/-- No piece of a source is taken for its end. -/
theorem piece_ne_eof (c : Char) (rest : List Char) : (piece c rest).1 ≠ some .eof := by
  unfold piece
  split
  · simp
  split
  · simpa using ofWord_ne_eof _
  split
  · simp
  split
  · simp only
    split <;> simp
  split
  · simp
  split
  · next kind hkind =>
    split at hkind
    · intro hend
      exact ofSymbolEquals?_ne_eof c (hkind.trans hend)
    · cases hkind
  · simpa using ofSymbol_ne_eof c

/-- Every token is a piece of the source. -/
theorem mem_scan {here : Nat × Nat} {source : List Char} {t : Token} (h : t ∈ scan here source) :
    ∃ c rest, (piece c rest).1 = some t.kind ∧
      t.lexeme = String.ofList (c :: rest.take (piece c rest).2) := by
  fun_induction scan here source with
  | case1 => simp at h
  | case2 here c rest count lexeme later kind hpiece ih =>
    rcases List.mem_cons.1 h with rfl | h
    · refine ⟨c, rest, by rw [hpiece], ?_⟩
      rw [hpiece]
    · exact ih h
  | case3 here c rest count lexeme later hpiece ih => exact ih h

theorem scan_kind_ne_eof {here : Nat × Nat} {source : List Char} :
    ∀ t ∈ scan here source, t.kind ≠ .eof := by
  rintro t ht hend
  obtain ⟨c, rest, hpiece, -⟩ := mem_scan ht
  rw [hend] at hpiece
  exact piece_ne_eof c rest hpiece

theorem take_takeWhile_length (p : Char → Bool) (cs : List Char) :
    cs.take (cs.takeWhile p).length = cs.takeWhile p :=
  (List.prefix_iff_eq_take.1 (List.takeWhile_prefix p)).symm

theorem takeWhile_append_newline {p : Char → Bool} (hp : p '\n' = false) (rest more : List Char) :
    (rest ++ '\n' :: more).takeWhile p = rest.takeWhile p := by
  induction rest with
  | nil => simp [hp]
  | cons c rest ih =>
    simp only [List.cons_append, List.takeWhile_cons]
    split
    · rw [ih]
    · rfl

theorem literalTail_append_newline (rest more : List Char) :
    literalTail (rest ++ '\n' :: more) = literalTail rest := by
  fun_induction literalTail rest with
  | case1 | case2 | case3 | case4 | case5 => simp [literalTail]
  | case6 d rest hd count closed htail ih =>
    rw [List.cons_append, List.cons_append, literalTail, ih, htail]
    exact hd
  | case7 c rest hline hquote hend hline' hescape count closed htail ih =>
    have hslash : c ≠ '\\' := by
      intro hc
      cases rest with
      | nil => exact hend hc rfl
      | cons d rest => exact hescape d rest hc rfl
    rw [List.cons_append, literalTail, ih, htail]
    all_goals simp_all

theorem literalTail_le (rest : List Char) : (literalTail rest).1 ≤ rest.length := by
  fun_induction literalTail rest with
  | case1 | case2 | case3 | case4 | case5 => simp
  | case6 d rest hd count closed htail ih =>
    rw [htail] at ih
    simpa using ih
  | case7 c rest _ _ _ _ _ count closed htail ih =>
    rw [htail] at ih
    simpa using ih

theorem isWordPart_newline : isWordPart '\n' = false := by decide

theorem isBlank_newline : isBlank '\n' = true := by decide

/-- A piece ends before the end of its line. -/
theorem piece_append_newline (c : Char) (rest more : List Char) :
    piece c (rest ++ '\n' :: more) = piece c rest := by
  have hhead : ∀ d, d ≠ '\n' → ((rest ++ '\n' :: more).head? = some d ↔ rest.head? = some d) := by
    intro d hd
    cases rest with
    | nil => simpa using hd.symm
    | cons first others => simp
  have hword : (rest ++ '\n' :: more).takeWhile isWordPart = rest.takeWhile isWordPart :=
    takeWhile_append_newline isWordPart_newline rest more
  have hdigit : (rest ++ '\n' :: more).takeWhile isDigit = rest.takeWhile isDigit :=
    takeWhile_append_newline (by decide) rest more
  have hline : (rest ++ '\n' :: more).takeWhile (· ≠ '\n') = rest.takeWhile (· ≠ '\n') :=
    takeWhile_append_newline (by decide) rest more
  simp only [piece, hword, hdigit, hline, literalTail_append_newline, hhead '/' (by decide),
    hhead '=' (by decide)]

theorem piece_le (c : Char) (rest : List Char) : (piece c rest).2 ≤ rest.length := by
  have htake : ∀ p : Char → Bool, (rest.takeWhile p).length ≤ rest.length :=
    fun p ↦ (List.takeWhile_prefix p).length_le
  unfold piece
  split
  · simp
  split
  · exact htake _
  split
  · exact htake _
  split
  · exact literalTail_le rest
  split
  · exact htake _
  split
  · next hsymbol =>
    split at hsymbol
    · cases rest <;> simp_all
    · cases hsymbol
  · simp

theorem advance_append (here : Nat × Nat) (before more : List Char) :
    advance here (before ++ more) = advance (advance here before) more := by
  induction before generalizing here with
  | nil => rfl
  | cons c before ih => exact ih _

/-- The place after a piece and what follows it. -/
theorem advance_piece (here : Nat × Nat) (c : Char) (rest : List Char) (count : Nat) :
    advance (advance here (c :: rest.take count)) (rest.drop count) = advance here (c :: rest) := by
  rw [← advance_append, List.cons_append, List.take_append_drop]

/-- The tokens of some lines are those of the first and those of the later ones. -/
theorem scan_append_newline (here : Nat × Nat) (source more : List Char) :
    scan here (source ++ '\n' :: more) =
      scan here source ++ scan ((advance here source).1 + 1, 1) more := by
  fun_induction scan here source with
  | case1 here =>
    have hpiece : piece '\n' more = (none, 0) := by rw [piece, if_pos isBlank_newline]
    rw [List.nil_append, scan, hpiece]
    simp [advance]
  | case2 here c rest count lexeme later kind hpiece ih =>
    have hle : count ≤ rest.length := by simpa [hpiece] using piece_le c rest
    rw [advance_piece] at ih
    rw [List.cons_append, scan, piece_append_newline, hpiece]
    simp only [List.take_append_of_le_length hle, List.drop_append_of_le_length hle,
      List.cons_append]
    rw [ih]
  | case3 here c rest count lexeme later hpiece ih =>
    have hle : count ≤ rest.length := by simpa [hpiece] using piece_le c rest
    rw [advance_piece] at ih
    rw [List.cons_append, scan, piece_append_newline, hpiece]
    simp only [List.take_append_of_le_length hle, List.drop_append_of_le_length hle]
    rw [ih]

theorem tokens_append_newline (source more : String) :
    tokens (source ++ "\n" ++ more) =
      tokens source ++ scan ((advance (1, 1) source.toList).1 + 1, 1) more.toList := by
  have hlist : (source ++ "\n" ++ more).toList = source.toList ++ '\n' :: more.toList := by simp
  rw [tokens, hlist, scan_append_newline]
  rfl

end Lexer

end ScriptAnalysis
