import Mathlib.Data.List.DropRight
import ScriptAnalysis.Proofs.Decoding
import ScriptAnalysis.Proofs.Joining
import ScriptAnalysis.Proofs.SnippetMarks

/-!
# Lexemes in their lines

The place of a token is found by counting characters from the start of a source on, and a line to
show by cutting the source at its line feeds and dropping carriage returns at the end of the line.
Both agree: the columns of a token in its line hold its lexeme. Nor does it matter whether a source
is cut into lines before or after it is decoded.
-/

namespace ScriptAnalysis

namespace Text

variable {b : UInt8} {bytes : List UInt8}

theorem decodeUtf8_eq_nil_iff : decodeUtf8 bytes = [] ↔ bytes = [] := by
  cases bytes with
  | nil => simp [decodeUtf8]
  | cons b rest =>
    rw [decodeUtf8]
    split <;> simp

theorem getLast?_of_decodeUtf8 (hb : b < 0x80)
    (h : (decodeUtf8 bytes).getLast? = some (Char.ofNat b.toNat)) : bytes.getLast? = some b := by
  have hchar := toNat_ofNat_of_lt hb
  have hlt : b.toNat < 0x80 := hb
  fun_induction decodeUtf8 bytes with
  | case1 => cases h
  | case2 d rest c count hfront ih =>
    rw [List.getLast?_cons, Option.some_inj] at h ⊢
    cases hlast : (decodeUtf8 (rest.drop count)).getLast? with
    | none =>
      rw [hlast, Option.getD_none] at h
      rw [List.getLast?_eq_none_iff, decodeUtf8_eq_nil_iff] at hlast
      subst h
      obtain ⟨rfl, hfirst⟩ := eq_of_front?_lt hfront (by omega)
      rw [List.drop_zero] at hlast
      rw [hchar] at hfirst
      rw [hlast, UInt8.toNat_inj.1 hfirst]
      rfl
    | some last =>
      rw [hlast, Option.getD_some] at h
      have hrest := ih (hlast.trans (congrArg some h))
      rw [List.getLast?_drop] at hrest
      split at hrest
      · cases hrest
      · rw [hrest, Option.getD_some]
  | case3 d rest hfront ih =>
    rw [List.getLast?_cons, Option.some_inj] at h ⊢
    cases hlast : (decodeUtf8 rest).getLast? with
    | none =>
      have hge := replacement_ge
      rw [hlast, Option.getD_none] at h
      rw [h, hchar] at hge
      omega
    | some last =>
      rw [hlast, Option.getD_some] at h
      rw [ih (hlast.trans (congrArg some h)), Option.getD_some]

/-- Carriage returns at the end of a line may be dropped before or after decoding. -/
theorem decodeUtf8_rdropWhile (bytes : List UInt8) :
    decodeUtf8 (bytes.rdropWhile (· = carriageReturn)) =
      trimRight (· = '\r') (decodeUtf8 bytes) := by
  change _ = (decodeUtf8 bytes).rdropWhile (· = '\r')
  induction bytes using List.reverseRecOn with
  | nil => rw [List.rdropWhile_nil, decodeUtf8, List.rdropWhile_nil]
  | append_singleton bytes b ih =>
    by_cases hb : b = carriageReturn
    · have hdecode : decodeUtf8 (bytes ++ [b]) = decodeUtf8 bytes ++ ['\r'] := by
        rw [hb, decodeUtf8_append_cons_of_lt (by decide), decodeUtf8]
        rfl
      rw [List.rdropWhile_concat_pos _ _ _ (by simpa using hb), ih, hdecode,
        List.rdropWhile_concat_pos _ _ _ (by decide)]
    · rw [List.rdropWhile_concat_neg _ _ _ (by simpa using hb), eq_comm,
        List.rdropWhile_eq_self_iff]
      intro hne hlast
      have hcarriage : (decodeUtf8 (bytes ++ [b])).getLast? =
          some (Char.ofNat carriageReturn.toNat) := by
        rw [List.getLast?_eq_some_getLast hne, of_decide_eq_true hlast]
        rfl
      have hend := getLast?_of_decodeUtf8 (by decide) hcarriage
      rw [List.getLast?_concat] at hend
      exact hb (Option.some.inj hend)

/-- Lines may be cut before or after decoding. -/
theorem map_decodeUtf8_splitOn (bytes : List UInt8) :
    (bytes.splitOn lineFeed).map decodeUtf8 = lines (decodeUtf8 bytes) := by
  have hline (line : List UInt8) (hnot : lineFeed ∉ line) : '\n' ∉ decodeUtf8 line := fun hmem ↦
    hnot (mem_of_mem_decodeUtf8 (by decide) hmem)
  by_cases hmem : lineFeed ∈ bytes
  · obtain ⟨line, more, hbytes, hnot⟩ := List.eq_append_cons_of_mem hmem
    have hother : ∀ b ∈ line, (b == lineFeed) = false := by
      intro b hb
      rw [beq_eq_false_iff_ne]
      rintro rfl
      exact hnot hb
    calc
      _ = decodeUtf8 line :: (more.splitOn lineFeed).map decodeUtf8 := by
        rw [hbytes, List.splitOn, List.splitOnP_append_cons_of_forall_mem hother _
          (beq_self_eq_true _), List.map_cons]
        rfl
      _ = lines (decodeUtf8 line) ++ lines (decodeUtf8 more) := by
        rw [map_decodeUtf8_splitOn more, lines_of_notMem (hline line hnot)]
        rfl
      _ = lines (decodeUtf8 line ++ '\n' :: decodeUtf8 more) := (lines_append_newline _ _).symm
      _ = _ := by
        rw [hbytes, decodeUtf8_append_cons_of_lt (by decide)]
        rfl
  · rw [List.splitOn_eq_singleton hmem, lines_of_notMem (hline bytes hmem)]
    rfl
termination_by bytes.length
decreasing_by
  rw [hbytes, List.length_append, List.length_cons]
  omega

end Text

namespace Snippet

/-- A line of a source that is not decoded, without the carriage returns at its end. -/
def lineBytes (bytes : List UInt8) (line : Int) : List UInt8 :=
  if line < 1 then []
  else (((bytes.splitOn Text.lineFeed)[(line - 1).toNat]?).getD []).rdropWhile
    (· = Text.carriageReturn)

theorem decodeUtf8_lineBytes (bytes : List UInt8) (line : Int) :
    Text.decodeUtf8 (lineBytes bytes line) = lineText (Text.ofBytes bytes) line := by
  rw [lineBytes, lineText]
  split
  · rw [Text.decodeUtf8]
  · rw [Text.decodeUtf8_rdropWhile, Text.ofBytes, String.toList_ofList,
      ← Text.map_decodeUtf8_splitOn, List.getElem?_map]
    cases (bytes.splitOn Text.lineFeed)[(line - 1).toNat]? with
    | none => rw [Option.map_none, Option.getD_none, Option.getD_none, Text.decodeUtf8]
    | some cut => rw [Option.map_some, Option.getD_some, Option.getD_some]

end Snippet

theorem Text.trimRight_append {drop : Char → Bool} {cs : List Char}
    (hlast : ∀ c ∈ cs.getLast?, drop c = false) (tail : List Char) :
    trimRight drop (cs ++ tail) = cs ++ trimRight drop tail := by
  change (cs ++ tail).rdropWhile drop = cs ++ tail.rdropWhile drop
  induction tail using List.reverseRecOn with
  | nil =>
    rw [List.append_nil, List.rdropWhile_nil, List.append_nil, List.rdropWhile_eq_self_iff]
    intro hne
    rw [hlast _ (List.getLast?_eq_some_getLast hne)]
    exact Bool.false_ne_true
  | append_singleton tail c ih =>
    rw [← List.append_assoc, List.rdropWhile_concat, List.rdropWhile_concat]
    split
    · exact ih
    · exact List.append_assoc _ _ _

namespace Lexer

/-- Only an illegal lexeme can end with a carriage return. -/
theorem Munches.getLast?_ne_carriage {text lexeme : List Char} {kind : Kind}
    (h : Munches text kind lexeme) (hlegal : kind ≠ .illegal) :
    lexeme.getLast? ≠ some '\r' := by
  cases h with
  | word h =>
    have hnot : '\r' ∉ lexeme := notMem_of_isRun (by decide) (by decide) h.belongs
    exact fun hlast ↦ hnot (List.mem_of_getLast? hlast)
  | number h =>
    have hnot : '\r' ∉ lexeme := notMem_of_isRun (by decide) (by decide) h.belongs
    exact fun hlast ↦ hnot (List.mem_of_getLast? hlast)
  | literal h =>
    obtain ⟨body, -, rfl⟩ := h.belongs
    rw [← List.cons_append, List.getLast?_concat]
    decide
  | symbol hkind h =>
    have hall : ∀ kind ∈ symbols, kind.name.toList.getLast? ≠ some '\r' := by decide
    exact hall _ hkind
  | unclosed => exact absurd rfl hlegal
  | stray => exact absurd rfl hlegal

/-- A legal lexeme is printed whole in its line, behind as many characters as its column says. -/
theorem exists_row {source : String} {t : Token} (h : t ∈ allTokens source)
    (hlegal : t.kind ≠ .illegal) (hend : t.kind ≠ .eof) :
    ∃ left right, Snippet.lineText source t.line = left ++ (t.lexeme.toList ++ right) ∧
      t.col = 1 + left.length := by
  have hcuts := cuts_allTokens source
  obtain ⟨text, -, hlexeme⟩ := hcuts.munches t h hend
  obtain ⟨j, hj⟩ := List.getElem?_of_mem h
  obtain ⟨lead, rest, hsource, hplace⟩ := hcuts.exists_place hj
  obtain ⟨earlier, left, tail, rfl, hwhole, hearlier, hline⟩ :=
    Snippet.exists_lineText hsource (hplace.newline_notMem rfl)
  have hstart : t.startPlace = placeAfter (earlier ++ left) := hplace.start
  have hlast : ∀ c ∈ (left ++ t.lexeme.toList).getLast?, decide (c = '\r') = false := by
    intro c hc
    rw [List.getLast?_append_of_ne_nil _ hlexeme.ne_nil] at hc
    rw [decide_eq_false_iff_not]
    rintro rfl
    exact hlexeme.getLast?_ne_carriage hlegal hc
  rw [← hstart, Text.trimRight_append hlast, List.append_assoc] at hline
  have hleft : '\n' ∉ left := fun hmem ↦ hwhole (by simp [hmem])
  have hcol := col_placeAfter hearlier hleft
  rw [← hstart] at hcol
  exact ⟨left, _, hline, Int.ofNat_inj.1 hcol⟩

end Lexer

/-- The columns of a token in its line hold its lexeme, also where the line was cut out of the bytes
of the source before they were decoded. -/
theorem lexeme_stands_in_line {source : String} {t : Token} (h : t ∈ Lexer.allTokens source)
    (hlegal : t.kind ≠ .illegal) (hend : t.kind ≠ .eof) :
    1 ≤ t.line ∧ 1 ≤ t.col ∧
      (Snippet.lineText source t.line).extract (t.col - 1) (t.stop - 1) = t.lexeme.toList ∧
      ∀ bytes, Text.ofBytes bytes = source →
        Text.decodeUtf8 (Snippet.lineBytes bytes t.line) = Snippet.lineText source t.line := by
  obtain ⟨left, right, hrow, hcol⟩ := Lexer.exists_row h hlegal hend
  have hmem : t ∈ Lexer.tokens source := by
    rcases List.mem_append.1 h with hmem | hmem
    · exact hmem
    · rw [List.mem_singleton.1 hmem] at hend
      exact absurd (Lexer.endMark_kind source) hend
  refine ⟨(Lexer.line_of_mem_scan hmem).1, by omega, ?_, ?_⟩
  · have hfirst : t.col - 1 = left.length := by omega
    have hlength : t.stop - 1 - left.length = t.lexeme.toList.length := by
      rw [Token.stop, String.length_toList]
      omega
    rw [hrow, hfirst, List.extract, hlength, List.drop_left, List.take_left]
  · rintro bytes rfl
    exact Snippet.decodeUtf8_lineBytes bytes t.line

/-- A literal behind a tab holds a byte that is not well formed and a carriage return, and another
carriage return ends its line. -/
theorem lexeme_stands_in_line_literal :
    let bytes := [0x0D, 0x0A, 0x09, 0x22, 0xFF, 0x0D, 0x22, 0x0D]
    let t : Token := ⟨.string, "\"\ufffd\r\"", 2, 2⟩
    t ∈ Lexer.allTokens (Text.ofBytes bytes) ∧
      (Text.decodeUtf8 (Snippet.lineBytes bytes 2)).extract 1 5 = t.lexeme.toList := by
  intro bytes t
  have hmem : t ∈ Lexer.allTokens (Text.ofBytes bytes) := by
    have htokens : Lexer.allTokens (Text.ofBytes bytes) = [t, ⟨.eof, "", 2, 7⟩] := by cbv
    rw [htokens]
    exact List.mem_cons_self
  obtain ⟨-, -, hcolumns, hbytes⟩ := lexeme_stands_in_line hmem (by decide) (by decide)
  have hstop : t.stop - 1 = 5 := by cbv
  rw [← hbytes bytes rfl, hstop] at hcolumns
  exact ⟨hmem, hcolumns⟩

end ScriptAnalysis
