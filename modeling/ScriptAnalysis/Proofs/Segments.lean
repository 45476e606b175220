import ScriptAnalysis.Proofs.Lexemes

/-!
# Sources are cut without loss

A source is a row of lexemes with gaps of blanks and comments before, between and behind them. Each
lexeme is a token at the place where it stands, and the end of the source is the last token. There
is one way to cut a source like this, and it is the one that the scanner finds.
-/

namespace ScriptAnalysis.Lexer

open Text (isBlank)

/-- The line after some characters from the start of a source. -/
def lineAfter (before : List Char) : Nat := 1 + before.count '\n'

/-- The column after some characters from the start of a source: one more than there are since the
last end of a line. -/
def colAfter (before : List Char) : Nat := 1 + (before.reverse.takeWhile (· ≠ '\n')).length

theorem advance_after (before more : List Char) :
    advance (lineAfter before, colAfter before) more =
      (lineAfter (before ++ more), colAfter (before ++ more)) := by
  induction more generalizing before with
  | nil => simp [advance]
  | cons c more ih =>
    have hstep : (if c = '\n' then (lineAfter before + 1, 1)
        else (lineAfter before, colAfter before + 1)) =
          (lineAfter (before ++ [c]), colAfter (before ++ [c])) := by
      by_cases hc : c = '\n'
      · simp [hc, lineAfter, colAfter, Nat.add_assoc]
      · simp [hc, lineAfter, colAfter, Nat.add_assoc, List.count_append]
    rw [advance, hstep, ih, List.append_assoc, List.singleton_append]

/-- Blanks and comments in front of `rest`. A comment runs to the end of its line. -/
inductive Trivia (rest : List Char) : List Char → Prop
  | nil : Trivia rest []
  | blank {c : Char} {gap : List Char} (hc : isBlank c = true) (h : Trivia rest gap) :
    Trivia rest (c :: gap)
  | comment {text gap : List Char} (htext : '\n' ∉ text)
    (hend : ∀ c ∈ (gap ++ rest).head?, c = '\n') (h : Trivia rest gap) :
    Trivia rest ('/' :: '/' :: (text ++ gap))

/-- The tokens of a text that stands behind the characters `before` of its source. -/
inductive Cuts : List Char → List Char → List Token → Prop
  | stop {before gap : List Char} (hgap : Trivia [] gap) :
    Cuts before gap [⟨.eof, "", lineAfter (before ++ gap), colAfter (before ++ gap)⟩]
  | token {before gap lexeme rest : List Char} {kind : Kind} {ts : List Token}
    (hgap : Trivia (lexeme ++ rest) gap) (hsolid : ¬ BeginsTrivia (lexeme ++ rest))
    (hlexeme : Munches (lexeme ++ rest) kind lexeme)
    (hs : Cuts (before ++ gap ++ lexeme) rest ts) :
    Cuts before (gap ++ (lexeme ++ rest))
      (⟨kind, String.ofList lexeme, lineAfter (before ++ gap), colAfter (before ++ gap)⟩ :: ts)

variable {c : Char} {before rest : List Char} {ts : List Token}

theorem piece_blank (hc : isBlank c = true) : piece c rest = (none, 0) := by
  rw [piece, if_pos hc]

theorem piece_comment {text : List Char} (htext : '\n' ∉ text)
    (hend : ∀ c ∈ rest.head?, c = '\n') :
    piece '/' ('/' :: (text ++ rest)) = (none, text.length + 1) := by
  have hfirst : isBlank '/' = false ∧ isWordStart '/' = false ∧ isDigit '/' = false := by decide
  have hslash : '\n' ∉ '/' :: text := by simp [htext]
  have hline : ('/' :: (text ++ rest)).takeWhile (· ≠ '\n') = '/' :: text :=
    takeWhile_line hslash hend
  simp only [piece, hfirst]
  rw [hline]
  simp

/-- What lengthens every gap in front of a text may stand in front of its tokens. -/
theorem Cuts.skip {skipped : List Char} (h : Cuts (before ++ skipped) rest ts)
    (hskip : ∀ gap more, gap ++ more = rest → Trivia more gap → Trivia more (skipped ++ gap)) :
    Cuts before (skipped ++ rest) ts := by
  cases h with
  | stop hgap =>
    have hcut := @Cuts.stop before _ (hskip _ [] (List.append_nil _) hgap)
    rwa [← List.append_assoc] at hcut
  | @token _ gap lexeme rest kind ts hgap hsolid hlexeme hs =>
    have hgap' := hskip gap (lexeme ++ rest) rfl hgap
    rw [List.append_assoc before skipped gap] at hs ⊢
    rw [← List.append_assoc skipped gap]
    exact .token hgap' hsolid hlexeme hs

theorem Cuts.blank (hc : isBlank c = true) (h : Cuts (before ++ [c]) rest ts) :
    Cuts before (c :: rest) ts := by
  apply Cuts.skip h
  intro gap more _ hgap
  exact .blank hc hgap

theorem Cuts.comment {text : List Char} (htext : '\n' ∉ text)
    (hend : ∀ c ∈ rest.head?, c = '\n') (h : Cuts (before ++ '/' :: '/' :: text) rest ts) :
    Cuts before ('/' :: '/' :: (text ++ rest)) ts := by
  apply Cuts.skip h
  intro gap more hrest hgap
  rw [← hrest] at hend
  exact .comment htext hend hgap

theorem scan_of_kind {here : Nat × Nat} {kind : Kind} (h : (piece c rest).1 = some kind) :
    scan here (c :: rest) =
      ⟨kind, String.ofList (c :: rest.take (piece c rest).2), here.1, here.2⟩ ::
        scan (advance here (c :: rest.take (piece c rest).2)) (rest.drop (piece c rest).2) := by
  rw [scan]
  cases hpiece : piece c rest with
  | mk kind? count =>
    rw [hpiece] at h
    obtain rfl : kind? = some kind := h
    rfl

theorem scan_of_trivia {here : Nat × Nat} (h : (piece c rest).1 = none) :
    scan here (c :: rest) =
      scan (advance here (c :: rest.take (piece c rest).2)) (rest.drop (piece c rest).2) := by
  rw [scan]
  cases hpiece : piece c rest with
  | mk kind? count =>
    rw [hpiece] at h
    obtain rfl : kind? = none := h
    rfl

theorem exists_line (text : List Char) :
    ∃ line more, text = line ++ more ∧ '\n' ∉ line ∧ ∀ c ∈ more.head?, c = '\n' := by
  refine ⟨_, _, List.takeWhile_append_dropWhile.symm, ?_, head?_dropWhile_line text⟩
  intro hmem
  simpa using all_of_mem_takeWhile _ hmem

/-- The scanner finds tokens that cut what it reads. -/
theorem cuts_scan (before text : List Char) :
    Cuts before text (scan (lineAfter before, colAfter before) text ++
      [⟨.eof, "", lineAfter (before ++ text), colAfter (before ++ text)⟩]) := by
  cases text with
  | nil =>
    rw [scan]
    exact .stop .nil
  | cons c rest =>
    have hrest := cuts_scan (before ++ c :: rest.take (piece c rest).2)
      (rest.drop (piece c rest).2)
    rw [List.append_assoc, List.cons_append, List.take_append_drop, ← advance_after] at hrest
    by_cases htrivia : BeginsTrivia (c :: rest)
    · rcases beginsTrivia_cons.1 htrivia with hblank | ⟨rfl, hslash⟩
      · rw [scan_of_trivia (by rw [piece_blank hblank])]
        rw [piece_blank hblank] at hrest ⊢
        exact .blank hblank hrest
      · obtain ⟨more, rfl⟩ := List.head?_eq_some_iff.1 hslash
        obtain ⟨line, tail, rfl, hline, htail⟩ := exists_line more
        rw [scan_of_trivia (by rw [piece_comment hline htail])]
        rw [piece_comment hline htail] at hrest ⊢
        simp only [List.take_succ_cons, List.take_left, List.drop_succ_cons,
          List.drop_left] at hrest ⊢
        exact .comment hline htail hrest
    · obtain ⟨kind, hkind, hlexeme⟩ := munches_piece htrivia
      rw [scan_of_kind hkind]
      have hcut := @Cuts.token before [] (c :: rest.take (piece c rest).2)
        (rest.drop (piece c rest).2) kind
      rw [List.cons_append, List.take_append_drop, List.append_nil, List.nil_append] at hcut
      exact hcut .nil htrivia hlexeme hrest
termination_by text.length
decreasing_by
  simp only [List.length_drop, List.length_cons]
  omega

theorem scan_gap {here : Nat × Nat} {gap : List Char} (h : Trivia rest gap) :
    scan here (gap ++ rest) = scan (advance here gap) rest := by
  induction h generalizing here with
  | nil => rfl
  | @blank c gap hc h ih =>
    rw [List.cons_append, scan_of_trivia (by rw [piece_blank hc]), piece_blank hc]
    exact ih
  | @comment text gap htext hend h ih =>
    have hpiece := piece_comment htext hend
    rw [List.cons_append, List.cons_append, List.append_assoc, scan_of_trivia (by rw [hpiece]),
      hpiece]
    simp only [List.take_succ_cons, List.take_left, List.drop_succ_cons, List.drop_left]
    rw [ih, ← advance_append]
    rfl

theorem Munches.ne_nil {text lexeme : List Char} {kind : Kind} (h : Munches text kind lexeme) :
    lexeme ≠ [] := by
  cases h with
  | word h => rintro rfl; exact h.belongs
  | number h => rintro rfl; exact h.belongs
  | literal h =>
    obtain ⟨body, -, rfl⟩ := h.belongs
    simp
  | symbol hkind h =>
    have hall : ∀ kind ∈ symbols, kind.name.toList ≠ [] := by decide
    exact hall _ hkind
  | unclosed => simp
  | stray => simp

/-- There is no other way to cut a text than that of the scanner. -/
theorem Cuts.eq_scan {text : List Char} (h : Cuts before text ts) :
    ts = scan (lineAfter before, colAfter before) text ++
      [⟨.eof, "", lineAfter (before ++ text), colAfter (before ++ text)⟩] := by
  induction h with
  | @stop before gap hgap =>
    have hscan := @scan_gap [] (lineAfter before, colAfter before) gap hgap
    rw [List.append_nil, scan] at hscan
    rw [hscan, List.nil_append]
  | @token before gap lexeme rest kind ts hgap hsolid hlexeme hs ih =>
    rw [scan_gap hgap, advance_after]
    obtain ⟨c, word, rfl⟩ := List.exists_cons_of_ne_nil hlexeme.ne_nil
    rw [List.cons_append] at hsolid hlexeme ⊢
    obtain ⟨hkind, hword⟩ := piece_of_munches hsolid hlexeme
    have htake : (word ++ rest).take (piece c (word ++ rest)).2 = word :=
      (List.cons.inj hword).2.symm
    have hdrop : (word ++ rest).drop (piece c (word ++ rest)).2 = rest := by
      have hsplit := List.take_append_drop (piece c (word ++ rest)).2 (word ++ rest)
      rw [htake] at hsplit
      exact List.append_cancel_left hsplit
    rw [scan_of_kind hkind, htake, hdrop, advance_after, ih]
    simp

theorem notMem_of_isRun {first part : Char → Bool} {cs : List Char} {d : Char}
    (hfirst : first d = false) (hpart : part d = false) (h : IsRun first part cs) : d ∉ cs := by
  cases cs with
  | nil => simp
  | cons c cs =>
    rw [List.mem_cons, not_or]
    constructor
    · intro hc
      have hfirst' := h.1
      rw [← hc, hfirst] at hfirst'
      cases hfirst'
    · intro hmem
      have hpart' := h.2 _ hmem
      rw [hpart] at hpart'
      cases hpart'

theorem LiteralBody.newline_notMem {body : List Char} (h : LiteralBody body) : '\n' ∉ body := by
  induction h with
  | nil => simp
  | plain hc h ih => simpa [ih] using hc.2.2.symm
  | escaped hc h ih => simpa [ih] using hc.symm

/-- No lexeme reaches over the end of a line. -/
theorem Munches.newline_notMem {text lexeme : List Char} {kind : Kind}
    (h : Munches text kind lexeme) (hsolid : ¬ BeginsTrivia text) : '\n' ∉ lexeme := by
  cases h with
  | word h => exact notMem_of_isRun (by decide) (by decide) h.belongs
  | number h => exact notMem_of_isRun (by decide) (by decide) h.belongs
  | literal h =>
    obtain ⟨body, hbody, rfl⟩ := h.belongs
    simpa using hbody.newline_notMem
  | symbol hkind h =>
    have hall : ∀ kind ∈ symbols, '\n' ∉ kind.name.toList := by decide
    exact hall _ hkind
  | unclosed htext hline => simpa using hline
  | stray htext =>
    rw [List.mem_singleton]
    intro hc
    rw [htext, ← hc, beginsTrivia_cons] at hsolid
    exact hsolid (.inl isBlank_newline)

theorem Cuts.munches {text : List Char} (h : Cuts before text ts) :
    ∀ t ∈ ts, t.kind ≠ .eof →
      ∃ text, ¬ BeginsTrivia text ∧ Munches text t.kind t.lexeme.toList := by
  induction h with
  | stop hgap => simp
  | @token before gap lexeme rest kind ts hgap hsolid hlexeme hs ih =>
    rw [List.forall_mem_cons]
    refine ⟨fun _ ↦ ⟨lexeme ++ rest, hsolid, ?_⟩, ih⟩
    rwa [String.toList_ofList]

/-- The tokens of a source are those that cut it into lexemes and gaps, and there are no others.
Only the last of them is the end of the source; each other has a lexeme that is not empty and lies
on one line. -/
theorem cuts_iff_eq_allTokens (source : String) :
    (∀ ts, Cuts [] source.toList ts ↔ ts = allTokens source) ∧
      allTokens source = tokens source ++ [endMark source] ∧ (endMark source).kind = .eof ∧
      ∀ t ∈ tokens source, t.kind ≠ .eof ∧ t.lexeme ≠ "" ∧ '\n' ∉ t.lexeme.toList := by
  have hmark : endMark source =
      ⟨.eof, "", lineAfter source.toList, colAfter source.toList⟩ := by
    have hplace : advance (1, 1) source.toList = _ := advance_after [] source.toList
    rw [endMark, hplace]
    rfl
  have hcuts : Cuts [] source.toList (allTokens source) := by
    rw [allTokens, hmark]
    exact cuts_scan [] source.toList
  refine ⟨fun ts ↦ ⟨fun h ↦ ?_, fun h ↦ h ▸ hcuts⟩, rfl, rfl, fun t ht ↦ ?_⟩
  · rw [h.eq_scan, hcuts.eq_scan]
  · have hkind : t.kind ≠ .eof := scan_kind_ne_eof t ht
    obtain ⟨text, hsolid, hlexeme⟩ := hcuts.munches t (List.mem_append_left _ ht) hkind
    refine ⟨hkind, fun hempty ↦ hlexeme.ne_nil ?_, hlexeme.newline_notMem hsolid⟩
    rw [hempty]
    rfl

end ScriptAnalysis.Lexer
