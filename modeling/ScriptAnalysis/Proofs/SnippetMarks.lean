import ScriptAnalysis.Diagnostic.Snippet
import ScriptAnalysis.Proofs.Answers
import ScriptAnalysis.Proofs.FirstError
import ScriptAnalysis.Proofs.TokenRanges

/-!
# Where snippets put their marks

A snippet prints the line of a span as it stands in the source, but for carriage returns at its end,
and puts the mark under it where the characters of the span would stand if every tab before their
end were four columns wide. So the mark stands right under these characters if there is no tab, and
only then.
-/

namespace ScriptAnalysis

namespace Text

variable {earlier line later : List Char}

theorem lines_ne_nil (cs : List Char) : lines cs ≠ [] := by
  cases cs with
  | nil => simp [lines]
  | cons c cs =>
    rw [lines]
    split
    · simp
    · split <;> simp

theorem lines_cons {c : Char} (hc : c ≠ '\n') (cs : List Char) :
    ∃ first others, lines cs = first :: others ∧ lines (c :: cs) = (c :: first) :: others := by
  obtain ⟨first, others, hlines⟩ := List.exists_cons_of_ne_nil (lines_ne_nil cs)
  exact ⟨first, others, hlines, by rw [lines, if_neg hc, hlines]⟩

theorem lines_append_newline (above rest : List Char) :
    lines (above ++ '\n' :: rest) = lines above ++ lines rest := by
  induction above with
  | nil => rfl
  | cons c above ih =>
    by_cases hc : c = '\n'
    · rw [hc, List.cons_append, lines, lines, if_pos rfl, if_pos rfl, ih]
      rfl
    · obtain ⟨first, others, hlines, hcons⟩ := lines_cons hc above
      rw [List.cons_append, lines, if_neg hc, ih, hcons, hlines]
      rfl

theorem lines_of_notMem (h : '\n' ∉ line) : lines line = [line] := by
  induction line with
  | nil => rfl
  | cons c line ih =>
    rw [List.mem_cons, not_or] at h
    rw [lines, if_neg (Ne.symm h.1), ih h.2]

theorem length_lines (cs : List Char) : (lines cs).length = cs.count '\n' + 1 := by
  induction cs with
  | nil => rfl
  | cons c cs ih =>
    by_cases hc : c = '\n'
    · rw [hc, lines, if_pos rfl, List.length_cons, ih, List.count_cons_self]
    · obtain ⟨first, others, hlines, hcons⟩ := lines_cons hc cs
      rw [hcons, List.count_cons_of_ne hc, ← ih, hlines]
      rfl

/-- A line is found behind as many lines as there are line feeds before it. -/
theorem getElem?_lines (hearlier : ∀ c ∈ earlier.getLast?, c = '\n') (hline : '\n' ∉ line)
    (hlater : ∀ c ∈ later.head?, c = '\n') :
    (lines (earlier ++ (line ++ later)))[earlier.count '\n']? = some line := by
  have hfirst : (lines (line ++ later))[0]? = some line := by
    cases later with
    | nil => rw [List.append_nil, lines_of_notMem hline]; rfl
    | cons c later =>
      obtain rfl := hlater c rfl
      rw [lines_append_newline, lines_of_notMem hline]
      rfl
  rcases List.eq_nil_or_concat earlier with rfl | ⟨above, c, rfl⟩
  · exact hfirst
  · obtain rfl := hearlier c (by simp)
    rw [List.concat_eq_append]
    have hcount : (above ++ ['\n']).count '\n' = (lines above).length := by
      rw [length_lines, List.count_append]
      rfl
    rw [hcount, List.append_assoc, List.singleton_append, lines_append_newline,
      List.getElem?_append_right (Nat.le_refl _), Nat.sub_self, hfirst]

/-- The last line of a text and what stands above it. -/
theorem exists_lastLine (cs : List Char) :
    ∃ earlier left, cs = earlier ++ left ∧ '\n' ∉ left ∧ ∀ c ∈ earlier.getLast?, c = '\n' := by
  obtain ⟨line, more, hreverse, hline, hmore⟩ := Lexer.exists_line cs.reverse
  refine ⟨more.reverse, line.reverse, ?_, by simpa using hline, ?_⟩
  · rw [← List.reverse_append, ← hreverse, List.reverse_reverse]
  · rwa [List.getLast?_reverse]

theorem exists_trimRight (drop : Char → Bool) (cs : List Char) :
    ∃ gone, cs = trimRight drop cs ++ gone ∧ ∀ c ∈ gone, drop c = true := by
  refine ⟨(cs.reverse.takeWhile drop).reverse, ?_, ?_⟩
  · rw [trimRight, ← List.reverse_append, List.takeWhile_append_dropWhile, List.reverse_reverse]
  · intro c hc
    exact Lexer.all_of_mem_takeWhile c (List.mem_reverse.1 hc)

end Text

namespace Lexer

open Text (isBlank)

/-- The place after some characters from the start of a source. -/
def placeAfter (before : List Char) : Place := ⟨lineAfter before, colAfter before⟩

theorem placeAfter_append {before more : List Char} (h : '\n' ∉ more) :
    placeAfter (before ++ more) =
      ⟨(placeAfter before).line, (placeAfter before).col + more.length⟩ := by
  have htake : (more.reverse ++ before.reverse).takeWhile (· ≠ '\n') =
      more.reverse ++ before.reverse.takeWhile (· ≠ '\n') := by
    apply List.takeWhile_append_of_pos
    intro c hc
    rw [decide_eq_true_eq]
    rintro rfl
    exact h (List.mem_reverse.1 hc)
  simp only [placeAfter, lineAfter, colAfter, List.count_append, List.count_eq_zero_of_not_mem h,
    List.reverse_append, htake, List.length_append, List.length_reverse, Place.mk.injEq]
  omega

theorem col_placeAfter {earlier left : List Char} (hearlier : ∀ c ∈ earlier.getLast?, c = '\n')
    (hleft : '\n' ∉ left) : (placeAfter (earlier ++ left)).col = 1 + left.length := by
  have hnone : earlier.reverse.takeWhile (· ≠ '\n') = [] := by
    cases hlast : earlier.reverse with
    | nil => rfl
    | cons c more =>
      rw [← List.head?_reverse, hlast] at hearlier
      simp [hearlier c rfl]
  rw [placeAfter_append hleft]
  simp only [placeAfter, colAfter, hnone, List.length_nil]
  omega

theorem stopPlace_lexeme {before lexeme : List Char} (kind : Kind) (h : '\n' ∉ lexeme) :
    Token.stopPlace ⟨kind, String.ofList lexeme, lineAfter before, colAfter before⟩ =
      placeAfter (before ++ lexeme) := by
  rw [placeAfter_append h, Token.stopPlace, Token.stop, String.length_ofList]
  rfl

/-- Whether some characters behind others take up a span and do not begin with a blank. -/
structure Occupies (before own : List Char) (start stop : Place) : Prop where
  start : start = placeAfter before
  stop : stop = placeAfter (before ++ own)
  solid : ∀ c ∈ own.head?, isBlank c = false

namespace Occupies

variable {before own : List Char} {start stop : Place}

theorem newline_notMem (h : Occupies before own start stop) (hline : stop.line = start.line) :
    '\n' ∉ own := by
  rw [h.start, h.stop] at hline
  simp only [placeAfter, lineAfter, List.count_append] at hline
  rw [← List.count_eq_zero]
  omega

/-- Characters that take up columns are not all dropped at the end of a line. -/
theorem not_carriage (h : Occupies before own start stop) (hcol : start.col < stop.col) :
    ¬ ∀ c ∈ own, c = '\r' := by
  intro hall
  cases own with
  | nil =>
    rw [h.start, h.stop, List.append_nil] at hcol
    exact lt_irrefl _ hcol
  | cons c own =>
    have hblank := h.solid c rfl
    rw [hall c List.mem_cons_self] at hblank
    revert hblank
    decide

end Occupies

section

variable {before text : List Char} {ts : List Token} {t u : Token}

theorem isBlank_head? {lexeme rest : List Char} (hne : lexeme ≠ [])
    (hsolid : ¬ BeginsTrivia (lexeme ++ rest)) (more : List Char) :
    ∀ c ∈ (lexeme ++ more).head?, isBlank c = false := by
  obtain ⟨d, word, rfl⟩ := List.exists_cons_of_ne_nil hne
  rintro _ ⟨⟩
  rw [← Bool.not_eq_true]
  intro hblank
  exact hsolid (.inl ⟨d, rfl, hblank⟩)

/-- A token stands where its lexeme does. -/
theorem Cuts.exists_place (h : Cuts before text ts) {j : Nat} (hj : ts[j]? = some u) :
    ∃ lead rest, text = lead ++ u.lexeme.toList ++ rest ∧
      Occupies (before ++ lead) u.lexeme.toList u.startPlace u.stopPlace := by
  induction h generalizing j with
  | @stop before gap hgap =>
    cases j with
    | zero =>
      cases hj
      refine ⟨gap, [], by simp, rfl, ?_, by simp⟩
      exact stopPlace_lexeme .eof (by simp)
    | succ j => cases hj
  | @token before gap lexeme rest kind ts hgap hsolid hlexeme hs ih =>
    cases j with
    | zero =>
      cases hj
      rw [String.toList_ofList]
      refine ⟨gap, rest, (List.append_assoc _ _ _).symm, rfl, ?_, ?_⟩
      · exact stopPlace_lexeme kind (hlexeme.newline_notMem hsolid)
      · simpa using isBlank_head? hlexeme.ne_nil hsolid []
    | succ j =>
      obtain ⟨lead, more, rfl, hplace⟩ := ih hj
      refine ⟨gap ++ lexeme ++ lead, more, by simp, ?_⟩
      simpa using hplace

/-- The characters from one token up to another. -/
theorem Cuts.exists_between (h : Cuts before text ts) {i j : Nat} (hij : i ≤ j)
    (hi : ts[i]? = some t) (hj : ts[j]? = some u) :
    ∃ lead own rest, text = lead ++ own ++ rest ∧
      Occupies (before ++ lead) own t.startPlace u.stopPlace := by
  induction h generalizing i j with
  | @stop before gap hgap =>
    obtain ⟨rfl, rfl⟩ : i = 0 ∧ j = 0 := by
      have hlt := (List.getElem?_eq_some_iff.1 hj).1
      rw [List.length_singleton] at hlt
      omega
    obtain rfl : t = u := Option.some.inj (hi.symm.trans hj)
    obtain ⟨lead, more, htext, hplace⟩ := (Cuts.stop hgap).exists_place hj
    exact ⟨lead, _, more, htext, hplace⟩
  | @token before gap lexeme rest kind ts hgap hsolid hlexeme hs ih =>
    have hfirst := Cuts.token hgap hsolid hlexeme hs
    cases i with
    | zero =>
      cases j with
      | zero =>
        obtain rfl : t = u := Option.some.inj (hi.symm.trans hj)
        obtain ⟨lead, more, htext, hplace⟩ := hfirst.exists_place hj
        exact ⟨lead, _, more, htext, hplace⟩
      | succ j =>
        cases hi
        obtain ⟨lead, more, rfl, hplace⟩ := hs.exists_place hj
        refine ⟨gap, lexeme ++ lead ++ u.lexeme.toList, more, by simp, rfl, ?_, ?_⟩
        · rw [hplace.stop]
          simp
        · rw [List.append_assoc]
          exact isBlank_head? hlexeme.ne_nil hsolid (lead ++ u.lexeme.toList)
    | succ i =>
      obtain ⟨j, rfl⟩ := Nat.exists_eq_succ_of_ne_zero (Nat.ne_zero_of_lt hij)
      obtain ⟨lead, own, more, rfl, hplace⟩ := ih (Nat.le_of_succ_le_succ hij) hi hj
      refine ⟨gap ++ lexeme ++ lead, own, more, by simp, ?_⟩
      simpa using hplace

end

theorem cuts_allTokens (source : String) : Cuts [] source.toList (allTokens source) := by
  have hplace : advance (1, 1) source.toList = _ := advance_after [] source.toList
  rw [allTokens, endMark, hplace]
  exact cuts_scan [] source.toList

end Lexer

namespace Snippet

open Lexer (Occupies placeAfter)

/-- The characters of a source that a span covers, and the line that they stand in as it is printed:
`left` of them, then those that are `shown`, then what is to the `right`. Only carriage returns at
the end of the line are `gone`. -/
structure Excerpt (source : String) (span : Span) where
  earlier : List Char
  left : List Char
  shown : List Char
  gone : List Char
  right : List Char
  later : List Char
  source_eq : source.toList = earlier ++ left ++ (shown ++ gone) ++ later
  start_eq : span.start = placeAfter (earlier ++ left)
  stop_eq : span.stop = placeAfter (earlier ++ left ++ (shown ++ gone))
  earlier_ends : ∀ c ∈ earlier.getLast?, c = '\n'
  line_eq : lineText source span.start.line = left ++ shown ++ right
  newline_notMem : '\n' ∉ left ++ (shown ++ gone) ++ right
  shown_ne : shown ≠ []
  gone_eq : ∀ c ∈ gone, c = '\r'
  gone_last : gone = [] ∨ right = []

theorem lineText_eq {source : String} {earlier line later : List Char}
    (hsource : source.toList = earlier ++ (line ++ later))
    (hearlier : ∀ c ∈ earlier.getLast?, c = '\n') (hline : '\n' ∉ line)
    (hlater : ∀ c ∈ later.head?, c = '\n') {number : Int}
    (hnumber : number = Lexer.lineAfter earlier) :
    lineText source number = Text.trimRight (· = '\r') line := by
  have hindex : (number - 1).toNat = earlier.count '\n' := by
    rw [hnumber, Lexer.lineAfter]
    omega
  have hpositive : ¬ number < 1 := by
    rw [hnumber, Lexer.lineAfter]
    omega
  rw [lineText, if_neg hpositive, hindex, hsource, Text.getElem?_lines hearlier hline hlater]
  rfl

/-- If only carriage returns are dropped at the end of a line, no others of its characters are. -/
theorem exists_shown {left own tail row dropped : List Char}
    (h : left ++ own ++ tail = row ++ dropped) (hdropped : ∀ c ∈ dropped, c = '\r')
    (hsolid : ¬ ∀ c ∈ own, c = '\r') :
    ∃ shown gone right, own = shown ++ gone ∧ row = left ++ shown ++ right ∧ shown ≠ [] ∧
      (∀ c ∈ gone, c = '\r') ∧ (gone = [] ∨ right = []) := by
  rcases List.append_eq_append_iff.1 h with ⟨right, hrow, -⟩ | ⟨gone, hleft, hgone⟩
  · refine ⟨own, [], right, (List.append_nil own).symm, hrow, ?_, by simp, .inl rfl⟩
    rintro rfl
    exact hsolid (by simp)
  · -- The line is cut before the end of the characters in question, but behind the first of them.
    rw [hgone, List.forall_mem_append] at hdropped
    rcases List.append_eq_append_iff.1 hleft with ⟨shown, hrow, rfl⟩ | ⟨more, -, rfl⟩
    · refine ⟨shown, gone, [], rfl, by rw [hrow, List.append_nil], ?_, hdropped.1, .inr rfl⟩
      rintro rfl
      exact hsolid hdropped.1
    · exact absurd (List.forall_mem_append.1 hdropped.1).2 hsolid

/-- Characters on one line stand in it as it is printed, unless they are dropped at its end. -/
theorem exists_lineText {source : String} {before own after : List Char}
    (hsource : source.toList = before ++ own ++ after) (hown : '\n' ∉ own) :
    ∃ earlier left tail, before = earlier ++ left ∧ '\n' ∉ left ++ own ++ tail ∧
      (∀ c ∈ earlier.getLast?, c = '\n') ∧
      lineText source (placeAfter before).line = Text.trimRight (· = '\r') (left ++ own ++ tail) := by
  obtain ⟨earlier, left, rfl, hleft, hearlier⟩ := Text.exists_lastLine before
  obtain ⟨tail, later, rfl, htail, hlater⟩ := Lexer.exists_line after
  have hwhole : '\n' ∉ left ++ own ++ tail := by
    simp [hleft, hown, htail]
  have hnumber : (placeAfter (earlier ++ left)).line = Lexer.lineAfter earlier := by
    simp [placeAfter, Lexer.lineAfter, List.count_eq_zero_of_not_mem hleft]
  have hlines : source.toList = earlier ++ (left ++ own ++ tail ++ later) := by
    simp [hsource]
  exact ⟨earlier, left, tail, rfl, hwhole, hearlier,
    lineText_eq hlines hearlier hwhole hlater hnumber⟩

/-- Characters on one line that do not begin with a blank can be shown. -/
theorem nonempty_excerpt {source : String} {span : Span} {before own after : List Char}
    (hsource : source.toList = before ++ own ++ after)
    (hplace : Occupies before own span.start span.stop)
    (hline : span.stop.line = span.start.line) (hcol : span.start.col < span.stop.col) :
    Nonempty (Excerpt source span) := by
  obtain ⟨earlier, left, tail, rfl, hwhole, hearlier, htext⟩ :=
    exists_lineText hsource (hplace.newline_notMem hline)
  obtain ⟨dropped, hsplit, hdropped⟩ := Text.exists_trimRight (· = '\r') (left ++ own ++ tail)
  rw [← htext, ← hplace.start] at hsplit
  have hcarriage : ∀ c ∈ dropped, c = '\r' := fun c hc ↦ of_decide_eq_true (hdropped c hc)
  obtain ⟨shown, gone, right, rfl, hrow, hshown, hgone, hlast⟩ :=
    exists_shown hsplit hcarriage (hplace.not_carriage hcol)
  have hright : '\n' ∉ right := by
    intro hmem
    rw [hsplit, hrow] at hwhole
    simp [hmem] at hwhole
  refine ⟨⟨earlier, left, shown, gone, right, after, hsource, hplace.start, hplace.stop,
    hearlier, hrow, ?_, hshown, hgone, hlast⟩⟩
  simp only [List.mem_append, not_or] at hwhole ⊢
  exact ⟨hwhole.1, hright⟩

/-! ## Marks -/

theorem width_eq (cs : List Char) : width cs = cs.length + 3 * cs.count '\t' := by
  induction cs with
  | nil => rfl
  | cons c cs ih =>
    rw [width, ih, List.length_cons, List.count_cons]
    by_cases hc : c = '\t' <;> simp [hc] <;> omega

theorem width_append (cs more : List Char) : width (cs ++ more) = width cs + width more := by
  rw [width_eq, width_eq, width_eq, List.length_append, List.count_append]
  omega

theorem width_eq_length_iff {cs : List Char} : width cs = cs.length ↔ '\t' ∉ cs := by
  rw [width_eq, ← List.count_eq_zero]
  omega

theorem width_pos {cs : List Char} (h : cs ≠ []) : 0 < width cs := by
  have hlength : 0 < cs.length := List.length_pos_iff.2 h
  rw [width_eq]
  omega

theorem columnBefore_of_pos {col : Int} (h : 0 < col) : columnBefore col = col - 1 := by
  have hleast : Int64.minValue.toInt < 0 := by decide
  rw [columnBefore, if_neg (by omega)]

/-- The columns that the mark in a row takes: from its first character on, up to the end of its
tail. -/
def markedColumns (row : List Char) : Nat × Nat :=
  let before := row.takeWhile (· ≠ '^')
  let tail := (row.drop (before.length + 1)).takeWhile (· = '~')
  (before.length, before.length + 1 + tail.length)

theorem markedColumns_eq {before rest : List Char} (n : Nat) (hbefore : '^' ∉ before)
    (hrest : ∀ c ∈ rest.head?, c ≠ '~') :
    markedColumns (before ++ '^' :: (List.replicate n '~' ++ rest)) =
      (before.length, before.length + 1 + n) := by
  have hlead : (before ++ '^' :: (List.replicate n '~' ++ rest)).takeWhile (· ≠ '^') = before := by
    rw [List.takeWhile_append_of_pos]
    · simp
    · intro c hc
      rw [decide_eq_true_eq]
      rintro rfl
      exact hbefore hc
  have htail : (List.replicate n '~' ++ rest).takeWhile (· = '~') = List.replicate n '~' := by
    rw [List.takeWhile_append_of_pos (by simp)]
    cases rest with
    | nil => simp
    | cons c rest => simp [hrest c rfl]
  have hdrop : (before ++ '^' :: (List.replicate n '~' ++ rest)).drop (before.length + 1) =
      List.replicate n '~' ++ rest := by
    rw [← List.drop_drop, List.drop_left, List.drop_one, List.tail_cons]
  simp only [markedColumns, hlead, hdrop, htail, List.length_replicate]

/-- What stands before the line in a snippet. -/
def margin (line : Int) : List Char := (" " ++ toString line ++ " | ").toList

theorem mem_margin {n : Nat} {c : Char} (h : c ∈ margin n) :
    c = ' ' ∨ c = '|' ∨ c.isDigit = true := by
  have hdigits (hmem : c ∈ (toString (n : Int)).toList) : c.isDigit = true := by
    change c ∈ n.repr.toList at hmem
    rw [Nat.toList_repr] at hmem
    exact Nat.isDigit_of_mem_toDigits (by decide) (by decide) hmem
  simp only [margin, String.toList_append, List.mem_append] at h
  rcases h with (h | h) | h
  · exact .inl (by simpa using h)
  · exact .inr (.inr (hdigits h))
  · simp at h
    tauto

/-- What stands before the mark in a snippet. -/
def markMargin (line : Int) : List Char :=
  (" " ++ Text.spaces (toString line).length ++ " | ").toList

theorem length_markMargin (line : Int) : (markMargin line).length = (margin line).length := by
  simp only [markMargin, margin, Text.spaces, String.toList_append, String.toList_ofList,
    List.length_append, List.length_replicate, String.length_toList]

theorem mem_markMargin {line : Int} {c : Char} (h : c ∈ markMargin line) : c = ' ' ∨ c = '|' := by
  simp only [markMargin, Text.spaces, String.toList_append, String.toList_ofList, List.mem_append,
    List.mem_replicate] at h
  rcases h with (h | h) | h
  · exact .inl (by simpa using h)
  · exact .inl h.2
  · simp at h
    tauto

/-- What stands behind the mark in a snippet. -/
def caption (label : String) : List Char :=
  (if Text.isAllBlank label then "" else " " ++ label).toList

theorem head?_caption (label : String) : ∀ c ∈ (caption label).head?, c ≠ '~' := by
  intro c hc
  rw [caption] at hc
  split at hc
  · simp at hc
  · rw [String.toList_append] at hc
    cases hc
    decide

theorem newline_notMem_caption {label : String} (h : '\n' ∉ label.toList) :
    '\n' ∉ caption label := by
  rw [caption]
  split
  · simp
  · simpa using h

namespace Excerpt

variable {source : String} {span : Span} (x : Excerpt source span)

theorem start_col : span.start.col = 1 + x.left.length := by
  have hleft : '\n' ∉ x.left := fun hmem ↦ x.newline_notMem (by simp [hmem])
  rw [x.start_eq, Lexer.col_placeAfter x.earlier_ends hleft]

theorem stop_col : span.stop.col = 1 + x.left.length + (x.shown.length + x.gone.length) := by
  have hown : '\n' ∉ x.shown ++ x.gone := fun hmem ↦
    x.newline_notMem (List.mem_append_left _ (List.mem_append_right _ hmem))
  rw [x.stop_eq, Lexer.placeAfter_append hown, ← x.start_eq, x.start_col, List.length_append]
  push_cast
  rfl

theorem widthBefore_start :
    widthBefore (x.left ++ x.shown ++ x.right) span.start.col = width x.left := by
  have hchars : charsBefore (x.left ++ x.shown ++ x.right).length span.start.col =
      x.left.length := by
    rw [charsBefore, columnBefore_of_pos (by rw [x.start_col]; omega), x.start_col]
    simp only [List.length_append]
    omega
  rw [widthBefore, hchars, List.append_assoc, List.take_left]

theorem widthBefore_stop :
    widthBefore (x.left ++ x.shown ++ x.right) span.stop.col = width x.left + width x.shown := by
  have hchars : charsBefore (x.left ++ x.shown ++ x.right).length span.stop.col =
      (x.left ++ x.shown).length := by
    -- Where characters of the span are gone, its last column lies behind the end of the row.
    have hends : x.gone.length = 0 ∨ x.right.length = 0 := by
      simpa only [List.length_eq_zero_iff] using x.gone_last
    rw [charsBefore, columnBefore_of_pos (by rw [x.stop_col]; omega), x.stop_col]
    simp only [List.length_append]
    omega
  rw [widthBefore, hchars, List.take_left, width_append]

theorem markEnd_eq :
    markEnd (x.left ++ x.shown ++ x.right) (width x.left) span.start.col span.stop.col =
      width x.left + width x.shown := by
  have hshown := width_pos x.shown_ne
  have hlength : 0 < x.shown.length := List.length_pos_iff.2 x.shown_ne
  have hcols : 0 < span.stop.col ∧ span.start.col < span.stop.col := by
    rw [x.start_col, x.stop_col]
    omega
  rw [markEnd, if_pos hcols]
  simp only [x.widthBefore_stop, width_append]
  rw [if_neg (by omega)]
  omega

theorem underline_eq (label : String) :
    (underline (x.left ++ x.shown ++ x.right) span.start.col span.stop.col label).toList =
      List.replicate (width x.left) ' ' ++ '^' ::
        (List.replicate (width x.shown - 1) '~' ++ caption label) := by
  have htail : width x.left + width x.shown - width x.left - 1 = width x.shown - 1 := by omega
  simp only [underline, x.widthBefore_start, x.markEnd_eq, htail, Text.spaces, caption,
    String.toList_append, String.toList_ofList]
  simp

/-- The row with the line. -/
def row : List Char := margin span.start.line ++ x.left ++ x.shown ++ x.right

/-- The columns in that row that the characters shown take. -/
def columns : Nat × Nat :=
  ((margin span.start.line ++ x.left).length, (margin span.start.line ++ x.left ++ x.shown).length)

/-- The columns that they would take if tabs were widened. -/
def wideColumns : Nat × Nat :=
  (width (margin span.start.line ++ x.left), width (margin span.start.line ++ x.left ++ x.shown))

include x in
theorem width_margin : width (margin span.start.line) = (margin span.start.line).length := by
  rw [width_eq_length_iff, x.start_eq]
  intro hmem
  exact absurd (mem_margin hmem) (by decide)

theorem wideColumns_eq_columns_iff : x.wideColumns = x.columns ↔ '\t' ∉ x.left ++ x.shown := by
  rw [wideColumns, columns, Prod.mk.injEq, List.mem_append, not_or, ← width_eq_length_iff,
    ← width_eq_length_iff]
  simp only [width_append, x.width_margin, List.length_append]
  omega

/-- The row with the mark. -/
def mark (label : String) : List Char :=
  markMargin span.start.line ++ List.replicate (width x.left) ' ' ++ '^' ::
    (List.replicate (width x.shown - 1) '~' ++ caption label)

theorem toList_text (hline : span.stop.line = span.start.line) (label : String) :
    (text source span label).toList = x.row ++ '\n' :: (x.mark label ++ ['\n']) := by
  have hshows : ¬ (span.start.line ≤ 0 ∨ source = "") := by
    rintro (hnone | rfl)
    · rw [x.start_eq] at hnone
      simp only [Lexer.placeAfter, Lexer.lineAfter] at hnone
      omega
    · have hempty := x.source_eq
      simp [x.shown_ne] at hempty
  rw [text, if_neg hshows]
  simp only [hline, if_true, x.line_eq, String.toList_append, x.underline_eq, row, mark, margin,
    markMargin]
  simp

theorem newline_notMem_row : '\n' ∉ x.row := by
  have hline := x.newline_notMem
  have hmargin : '\n' ∉ margin span.start.line := by
    rw [x.start_eq]
    intro hmem
    exact absurd (mem_margin hmem) (by decide)
  simp only [row, List.mem_append, not_or] at hline ⊢
  exact ⟨⟨⟨hmargin, hline.1.1⟩, hline.1.2.1⟩, hline.2⟩

theorem newline_notMem_mark {label : String} (h : '\n' ∉ label.toList) : '\n' ∉ x.mark label := by
  have hmargin : '\n' ∉ markMargin span.start.line := by
    intro hmem
    exact absurd (mem_markMargin hmem) (by decide)
  simp [mark, hmargin, newline_notMem_caption h]

theorem markedColumns_mark (label : String) : markedColumns (x.mark label) = x.wideColumns := by
  have hshown := width_pos x.shown_ne
  have hbefore : '^' ∉ markMargin span.start.line ++ List.replicate (width x.left) ' ' := by
    have hmargin : '^' ∉ markMargin span.start.line := by
      intro hmem
      exact absurd (mem_markMargin hmem) (by decide)
    simp [hmargin]
  rw [mark, markedColumns_eq _ hbefore (head?_caption label), List.length_append,
    length_markMargin, List.length_replicate, wideColumns, Prod.mk.injEq, width_append,
    width_append, width_append, x.width_margin]
  omega

end Excerpt

/-- Whether a text shows a snippet of a span below whole lines. -/
def ShownIn (source : String) (span : Span) (rendered : String) : Prop :=
  ∃ above label below, rendered.toList = above ++ (text source span label).toList ++ below ∧
    (∀ c ∈ above.getLast?, c = '\n') ∧ '\n' ∉ label.toList

theorem ShownIn.exists_rows {source rendered : String} {span : Span}
    (h : ShownIn source span rendered) (x : Excerpt source span)
    (hline : span.stop.line = span.start.line) :
    ∃ k label, (Text.lines rendered.toList)[k]? = some x.row ∧
      (Text.lines rendered.toList)[k + 1]? = some (x.mark label) := by
  obtain ⟨above, label, below, heq, habove, hlabel⟩ := h
  rw [x.toList_text hline label] at heq
  have hrow := x.newline_notMem_row
  refine ⟨above.count '\n', label, ?_, ?_⟩
  · have hsplit : rendered.toList =
        above ++ (x.row ++ ('\n' :: (x.mark label ++ '\n' :: below))) := by
      simp [heq]
    rw [hsplit]
    exact Text.getElem?_lines habove hrow (by simp)
  · have hsplit : rendered.toList =
        (above ++ x.row ++ ['\n']) ++ (x.mark label ++ '\n' :: below) := by
      simp [heq]
    have hcount : above.count '\n' + 1 = (above ++ x.row ++ ['\n']).count '\n' := by
      simp [List.count_eq_zero_of_not_mem hrow]
    rw [hsplit, hcount]
    exact Text.getElem?_lines (by simp) (x.newline_notMem_mark hlabel) (by simp)

theorem getLast?_heading (heading file : String) (place : Place) (p : Prop) [Decidable p] :
    ∀ c ∈ (heading ++ "\n" ++ if p then "" else location file place).toList.getLast?,
      c = '\n' := by
  have hends (text : String) : ∀ c ∈ (text ++ "\n").toList.getLast?, c = '\n' := by simp
  split
  · simp
  · rw [location, ← String.append_assoc]
    exact hends _

theorem shownIn_entry (e : Entry) (file source : String)
    (h : '\n' ∉ e.category.title.toList) : ShownIn source e.span (e.render file source) :=
  ⟨_, e.category.title, _, by rw [Entry.render, String.toList_append, String.toList_append],
    getLast?_heading _ file e.span.start (file = ""), h⟩

theorem shownIn_diagnostic (d : Diagnostic) (file source : String) :
    ShownIn source d.span (d.render file source) :=
  ⟨_, "", [], by rw [Diagnostic.render, String.toList_append, List.append_nil],
    getLast?_heading _ file d.span.start (file = "" ∨ d.span.start.line ≤ 0), by simp⟩

end Snippet

/-! ## Spans of errors -/

theorem Violation.newline_notMem_title (violation : Violation) :
    '\n' ∉ violation.category.title.toList := by
  have hnamed : violation.category ∈ Category.named := by
    cases violation <;> simp [Violation.category, Category.named]
  have htitles : ∀ c ∈ Category.named, '\n' ∉ c.title.toList := by decide
  exact htitles _ hnamed

/-- Whether a span is that of some characters of a source that do not begin with a blank. -/
def Span.Solid (source : String) (span : Span) : Prop :=
  ∃ before own after, source.toList = before ++ own ++ after ∧
    Lexer.Occupies before own span.start span.stop

theorem Node.ReadFrom.solid_span {source : String} {root node : Node Tag}
    (h : root.ReadFrom source) (hnode : node ∈ root.all)
    (hcol : node.note.span.start.col < node.note.span.stop.col) :
    node.note.span.Solid source := by
  obtain ⟨range, -, hranged⟩ := h.readAt.exists_ranged h.nodup_ids
  have hrange := (hranged node hnode).1
  rcases Nat.lt_or_eq_of_le hrange.le with hlt | heq
  · obtain ⟨first, last, hfirst, hlast, hspan⟩ := hrange.filled hlt
    rw [Tag.span, hspan]
    exact (Lexer.cuts_allTokens source).exists_between (Nat.le_sub_one_of_lt hlt) hfirst hlast
  · obtain ⟨next, -, -, hspan⟩ := hrange.empty heq
    rw [Tag.span, hspan] at hcol
    exact absurd hcol (lt_irrefl _)

theorem Token.solid_span {source : String} {t : Token} (h : t ∈ Lexer.allTokens source) :
    t.span.Solid source := by
  obtain ⟨j, hj⟩ := List.getElem?_of_mem h
  obtain ⟨lead, more, hsource, hplace⟩ := (Lexer.cuts_allTokens source).exists_place hj
  exact ⟨lead, _, more, hsource, hplace⟩

theorem Node.ReadFrom.exists_reported {source : String} {root : Node Tag} {options : Options}
    {e : Entry} (h : root.ReadFrom source) (he : e ∈ (root.analyze options).log.entries) :
    ∃ node ∈ root.all, ∃ violation : Violation,
      e = ⟨node.note.span, node.note.text, violation.category, violation.message⟩ := by
  rw [h.log_analyze] at he
  rcases Log.mem_of_mem_foldl_add he with hmem | hmem
  · obtain ⟨tag, violation, hreported, rfl⟩ := Options.mem_entries hmem
    obtain ⟨node, hnode, rfl, -⟩ := h.fits_secondWalk tag violation hreported
    exact ⟨node, hnode, violation, rfl⟩
  · cases hmem

theorem SyntaxError.exists_token {source : String} {e : SyntaxError}
    (h : Script.parse source = .error e ∨ Expr.parse source = .error e) :
    ∃ t ∈ Lexer.allTokens source, e.diagnostic.span = t.span := by
  have hmark : (Lexer.endMark source).kind = .eof := Lexer.endMark_kind source
  have hts : Grammar.Unmarked (Lexer.tokens source) := Lexer.scan_kind_ne_eof
  rw [Script.parse, Expr.parse, map_eq_error_iff, map_eq_error_iff] at h
  rcases h with h | h
  · obtain ⟨before, t, after, hsplit, hfirst⟩ :=
      (Parser.script_outcome hmark hts).firstHopeless (Parser.reads_script hmark) hmark hts h
    exact ⟨t, by simp [Lexer.allTokens, hsplit], hfirst.span⟩
  · obtain ⟨before, t, after, hsplit, hfirst⟩ :=
      (Parser.wholeExpression_outcome hmark _).firstHopeless (Parser.reads_wholeExpression hmark)
        hmark hts h
    exact ⟨t, by simp [Lexer.allTokens, hsplit], hfirst.span⟩

namespace Snippet

/-- The texts that are printed for the violations in a source, or for the error that it is rejected
with. -/
inductive Rendering (source file : String) : Span → String → Prop where
  | entry {root : Node Tag} {options : Options} {e : Entry} (h : root.ReadFrom source)
      (he : e ∈ (root.analyze options).log.entries) :
      Rendering source file e.span (e.render file source)
  | rejected {e : SyntaxError}
      (h : Script.parse source = .error e ∨ Expr.parse source = .error e) :
      Rendering source file e.diagnostic.span (e.diagnostic.render file source)

variable {source file rendered : String} {span : Span}

theorem Rendering.shownIn (h : Rendering source file span rendered) :
    ShownIn source span rendered := by
  cases h with
  | @entry root options e h he =>
    obtain ⟨node, -, violation, rfl⟩ := h.exists_reported he
    exact shownIn_entry _ file source violation.newline_notMem_title
  | rejected => exact shownIn_diagnostic _ file source

theorem Rendering.solid (h : Rendering source file span rendered)
    (hcol : span.start.col < span.stop.col) : span.Solid source := by
  cases h with
  | @entry root options e h he =>
    obtain ⟨node, hnode, violation, rfl⟩ := h.exists_reported he
    exact h.solid_span hnode hcol
  | @rejected e h =>
    obtain ⟨t, ht, hspan⟩ := SyntaxError.exists_token h
    rw [hspan]
    exact Token.solid_span ht

end Snippet

/-- What is printed for an error whose span lies on one line has the line of the span in one row and
the mark in the next. The mark takes the columns that the characters of the span would take in the
row above if each tab were four columns wide. So it stands right under them if no tab comes before
their end, and only then. -/
theorem snippet_mark_columns {source file rendered : String} {span : Span}
    (h : Snippet.Rendering source file span rendered)
    (hline : span.stop.line = span.start.line) (hcol : span.start.col < span.stop.col) :
    ∃ (x : Snippet.Excerpt source span) (k : Nat) (mark : List Char),
      (Text.lines rendered.toList)[k]? = some x.row ∧
      (Text.lines rendered.toList)[k + 1]? = some mark ∧
      Snippet.markedColumns mark = x.wideColumns ∧
      (Snippet.markedColumns mark = x.columns ↔ '\t' ∉ x.left ++ x.shown) := by
  obtain ⟨before, own, after, hsource, hplace⟩ := h.solid hcol
  obtain ⟨x⟩ := Snippet.nonempty_excerpt hsource hplace hline hcol
  obtain ⟨k, label, hrow, hmark⟩ := h.shownIn.exists_rows x hline
  have hcolumns := x.markedColumns_mark label
  refine ⟨x, k, x.mark label, hrow, hmark, hcolumns, ?_⟩
  rw [hcolumns]
  exact x.wideColumns_eq_columns_iff

/-- Without tabs the mark stands under the name that is undefined. -/
theorem snippet_mark_columns_undefined :
    ∃ e, Expr.parse "-x" = .ok e ∧ ∃ entry ∈ ((Node.expr e).analyze {}).log.entries,
      entry.span = ⟨⟨1, 2⟩, ⟨1, 3⟩⟩ ∧
      ∃ (x : Snippet.Excerpt "-x" entry.span) (k : Nat) (mark : List Char),
        (Text.lines (entry.render "" "-x").toList)[k]? = some x.row ∧
        (Text.lines (entry.render "" "-x").toList)[k + 1]? = some mark ∧
        Snippet.markedColumns mark = x.columns := by
  have hunbound : (ScopeTable.initial.env ScopeTable.globalId).usable? "x" = none := by
    rw [Env.usable?, ScopeTable.env_initial]
    rfl
  obtain ⟨e, he, hentries⟩ : ∃ e, Expr.parse "-x" = .ok e ∧
      Options.entries {} (e.infer (ScopeTable.initial.env ScopeTable.globalId)).events =
        [⟨⟨⟨1, 2⟩, ⟨1, 3⟩⟩, "x", .undefinedName, "Variable [x] is undefined."⟩,
          ⟨⟨⟨1, 1⟩, ⟨1, 3⟩⟩, "-x", .invalidNegation, (Violation.negation "-" .error).message⟩] := by
    refine ⟨?_, ?parse, ?_⟩
    case parse =>
      cbv
      rfl
    simp only [Expr.infer, hunbound, Inference.conclude]
    decide
  have hread := Node.ReadFrom.expr he
  have hlog : ((Node.expr e).analyze {}).log =
      (Options.entries {} (e.infer (ScopeTable.initial.env ScopeTable.globalId)).events).foldl
        Log.add .empty := hread.log_analyze {}
  have hmem : ⟨⟨⟨1, 2⟩, ⟨1, 3⟩⟩, "x", .undefinedName, "Variable [x] is undefined."⟩ ∈
      ((Node.expr e).analyze {}).log.entries := by
    rw [hlog, hentries]
    decide
  obtain ⟨x, k, mark, hrow, hmark, -, hcolumns⟩ :=
    snippet_mark_columns (.entry hread hmem) rfl (by decide)
  refine ⟨e, he, _, hmem, rfl, x, k, mark, hrow, hmark, hcolumns.2 ?_⟩
  intro htab
  have hsource : '\t' ∈ "-x".toList := by
    rw [x.source_eq]
    rcases List.mem_append.1 htab with hleft | hshown
    · simp [hleft]
    · simp [hshown]
  simp at hsource

/-- Behind a tab the mark stands three columns to the right of what it is meant to stand under. -/
theorem mark_misses_behind_tab :
    ∃ e, Script.parse "\t)" = .error e ∧ e.diagnostic.span = ⟨⟨1, 2⟩, ⟨1, 3⟩⟩ ∧
      e.diagnostic.render "in.nim" "\t)" =
        "error[NSX0001]: unexpected ')', expected statement\n --> in.nim:1:2\n" ++
          " 1 | \t)\n" ++ "   |     ^\n" ∧
      " 1 | \t)".toList[6]? = some ')' ∧ Snippet.markedColumns "   |     ^".toList = (9, 10) := by
  let e : SyntaxError := ⟨⟨.rightParen, ")", 1, 2⟩, .unexpectedToken ")" .statement⟩
  have hspan : e.span = ⟨⟨1, 2⟩, ⟨1, 3⟩⟩ := by cbv
  have hcode : e.code = "NSX0001" := by decide
  have hmessage : e.message = "unexpected ')', expected statement" := by rfl
  refine ⟨e, by cbv, ?_⟩
  rw [SyntaxError.diagnostic, hspan, hcode, hmessage]
  exact ⟨rfl, by cbv, by cbv, by cbv⟩

end ScriptAnalysis
