import ScriptAnalysis.Proofs.Spelling

/-!
# The tokens of texts put together

Where a text begins changes nothing about its tokens but their places, and all their lines alike.
Blanks before and behind a text leave its tokens as they are, unless a quote in it is open. Pieces
that stand on lines of their own have their tokens one after the other.
-/

namespace ScriptAnalysis

namespace Text

theorem exists_of_inRanges {code : Nat} {ranges : List (Nat × Nat)}
    (h : inRanges code ranges = true) : ∃ r ∈ ranges, r.1 ≤ code ∧ code ≤ r.2 := by
  induction ranges with
  | nil => cases h
  | cons r ranges ih =>
    rw [inRanges] at h
    split at h
    · cases h
    · next hlow =>
      rcases (by simpa using h) with hhigh | hlater
      · exact ⟨r, List.mem_cons_self, Nat.not_lt.1 hlow, hhigh⟩
      · obtain ⟨r', hr', hin⟩ := ih hlater
        exact ⟨r', List.mem_cons_of_mem r hr', hin⟩

theorem isLetter_of_isBlank {c : Char} (h : isBlank c = true) : isLetter c = false := by
  have hall : ∀ r ∈ blankRanges, ∀ k < r.2 + 1 - r.1, inRanges (r.1 + k) letterRanges = false := by
    decide +kernel
  obtain ⟨r, hr, hlow, hhigh⟩ := exists_of_inRanges h
  have hcode := hall r hr (c.toNat - r.1) (by omega)
  rwa [Nat.add_sub_cancel' hlow] at hcode

end Text

namespace Lexer

open Text (isBlank)

theorem isDigit_of_isBlank {c : Char} (h : isBlank c = true) : isDigit c = false := by
  have hall : ∀ r ∈ Text.blankRanges, r.2 < '0'.toNat ∨ '9'.toNat < r.1 := by decide
  obtain ⟨r, hr, hlow, hhigh⟩ := Text.exists_of_inRanges h
  rw [← Bool.not_eq_true]
  intro hdigit
  obtain ⟨hzero, hnine⟩ : '0'.toNat ≤ c.toNat ∧ c.toNat ≤ '9'.toNat := by
    simpa [isDigit, Char.le_def, UInt32.le_iff_toNat_le] using hdigit
  have hout := hall r hr
  omega

theorem isWordPart_of_isBlank {c : Char} (h : isBlank c = true) : isWordPart c = false := by
  have hunderscore : c ≠ '_' := by
    rintro rfl
    revert h
    decide
  simp [isWordPart, isWordStart, Text.isLetter_of_isBlank h, isDigit_of_isBlank h, hunderscore]

theorem ne_of_isBlank {c d : Char} (h : isBlank c = true) (hd : isBlank d = false) : c ≠ d := by
  rintro rfl
  rw [h] at hd
  cases hd

variable {c : Char} {rest blanks : List Char}

theorem takeWhile_append_blanks {p : Char → Bool} (hp : ∀ d, isBlank d = true → p d = false)
    (hblanks : ∀ d ∈ blanks, isBlank d = true) (rest : List Char) :
    (rest ++ blanks).takeWhile p = rest.takeWhile p := by
  have hnone : blanks.takeWhile p = [] := by
    cases blanks with
    | nil => rfl
    | cons d blanks => simp [hp d (hblanks d List.mem_cons_self)]
  rw [List.takeWhile_append]
  split
  · next hall =>
    rw [hnone, List.append_nil]
    exact (List.takeWhile_prefix p).eq_of_length hall |>.symm
  · rfl

theorem head?_append_blanks {d : Char} (hd : isBlank d = false)
    (hblanks : ∀ d ∈ blanks, isBlank d = true) (rest : List Char) :
    (rest ++ blanks).head? = some d ↔ rest.head? = some d := by
  cases rest with
  | nil =>
    cases blanks with
    | nil => rfl
    | cons b blanks =>
      have hne := ne_of_isBlank (hblanks b List.mem_cons_self) hd
      simp [hne]
  | cons c rest => rfl

/-- A literal that is closed with blanks behind it is closed before them. -/
theorem literalTail_append_blanks (hblanks : ∀ d ∈ blanks, isBlank d = true)
    (hclosed : (literalTail (rest ++ blanks)).2 = true) :
    literalTail (rest ++ blanks) = literalTail rest := by
  rcases literalTail_cases (rest ++ blanks) with ⟨-, body, after, hbody, hrest⟩ | ⟨hopen, -⟩
  · rcases List.append_eq_append_iff.1 hrest with ⟨more, rfl, hmore⟩ | ⟨more, rfl, hmore⟩
    · -- The closing quote is no blank.
      have hquote : '"' ∈ blanks := by
        rw [hmore]
        simp
      exact absurd (hblanks _ hquote) (by decide)
    · cases more with
      | nil =>
        have hquote : '"' ∈ blanks := by
          rw [← List.nil_append blanks, ← hmore]
          exact List.mem_cons_self
        exact absurd (hblanks _ hquote) (by decide)
      | cons d more =>
        obtain ⟨rfl, -⟩ := List.cons.inj hmore
        rw [List.append_assoc, List.cons_append, literalTail_of_body hbody,
          literalTail_of_body hbody]
  · rw [hopen] at hclosed
    cases hclosed

theorem beginsTrivia_append_blanks (hblanks : ∀ d ∈ blanks, isBlank d = true) :
    BeginsTrivia (c :: (rest ++ blanks)) ↔ BeginsTrivia (c :: rest) := by
  rw [beginsTrivia_cons, beginsTrivia_cons, head?_append_blanks (by decide) hblanks]

/-- Blanks behind a text leave the piece at its front as it is, unless that is a comment and takes
some of them. -/
theorem piece_append_blanks (hblanks : ∀ d ∈ blanks, isBlank d = true)
    (hlegal : (piece c (rest ++ blanks)).1 ≠ some .illegal) :
    piece c (rest ++ blanks) = piece c rest ∨
      piece c rest = (none, rest.length) ∧ (piece c (rest ++ blanks)).1 = none ∧
        rest.length ≤ (piece c (rest ++ blanks)).2 := by
  by_cases htrivia : BeginsTrivia (c :: rest)
  · rcases beginsTrivia_cons.1 htrivia with hblank | ⟨rfl, hslash⟩
    · exact .inl ((piece_blank hblank).trans (piece_blank hblank).symm)
    · obtain ⟨line, rfl⟩ := List.head?_eq_some_iff.1 hslash
      obtain ⟨text, after, rfl, htext, hafter⟩ := exists_line line
      rw [List.cons_append, List.append_assoc, piece_comment htext hafter]
      cases after with
      | nil =>
        obtain ⟨taken, left, rfl, htaken, hleft⟩ := exists_line blanks
        rw [List.nil_append, ← List.append_assoc, piece_comment _ hleft]
        · right
          simp
        · exact fun hmem ↦ (List.mem_append.1 hmem).elim htext htaken
      | cons d after => exact .inl (piece_comment htext (by simpa using hafter))
  have hsolid : ¬ BeginsTrivia (c :: (rest ++ blanks)) := by
    rwa [beginsTrivia_append_blanks hblanks]
  left
  by_cases hword : isWordStart c = true
  · rw [piece_word htrivia hword, piece_word hsolid hword,
      takeWhile_append_blanks (fun _ hd ↦ isWordPart_of_isBlank hd) hblanks]
  by_cases hdigit : isDigit c = true
  · rw [piece_digit htrivia hdigit, piece_digit hsolid hdigit,
      takeWhile_append_blanks (fun _ hd ↦ isDigit_of_isBlank hd) hblanks]
  by_cases hquote : c = '"'
  · subst hquote
    rw [piece_quote] at hlegal ⊢
    have hclosed : (literalTail (rest ++ blanks)).2 = true := by
      by_contra hopen
      rw [if_neg hopen] at hlegal
      exact hlegal rfl
    rw [piece_quote, literalTail_append_blanks hblanks hclosed]
  rw [Bool.not_eq_true] at hword hdigit
  have hpair : pair? c (rest ++ blanks) = pair? c rest := by
    unfold pair?
    simp only [head?_append_blanks (show isBlank '=' = false by decide) hblanks]
  rw [piece_other htrivia hword hdigit hquote, piece_other hsolid hword hdigit hquote, hpair]

theorem scan_blanks_append {here : Nat × Nat} {text : List Char}
    (hblanks : ∀ d ∈ blanks, isBlank d = true) :
    scan here (blanks ++ text) = scan (advance here blanks) text := by
  induction blanks generalizing here with
  | nil => rfl
  | cons d blanks ih =>
    rw [List.forall_mem_cons] at hblanks
    rw [List.cons_append, scan_of_trivia (by rw [piece_blank hblanks.1]), piece_blank hblanks.1]
    exact ih hblanks.2

theorem scan_blanks {here : Nat × Nat} (hblanks : ∀ d ∈ blanks, isBlank d = true) :
    scan here blanks = [] := by
  rw [← List.append_nil blanks, scan_blanks_append hblanks, scan]

/-- Blanks behind a text without open quotes or stray characters leave its tokens as they are. -/
theorem scan_append_blanks {here : Nat × Nat} {text : List Char}
    (hblanks : ∀ d ∈ blanks, isBlank d = true)
    (hlegal : ∀ t ∈ scan here (text ++ blanks), t.kind ≠ .illegal) :
    scan here (text ++ blanks) = scan here text := by
  match text with
  | [] => rw [List.nil_append, scan_blanks hblanks, scan]
  | c :: rest =>
    rw [List.cons_append] at hlegal ⊢
    have hpiece : (piece c (rest ++ blanks)).1 ≠ some .illegal := by
      intro hkind
      rw [scan_of_kind hkind] at hlegal
      exact hlegal _ List.mem_cons_self rfl
    have hle := piece_le c rest
    rcases piece_append_blanks hblanks hpiece with hsame | ⟨hcomment, hkind, hcount⟩
    · have htake : (rest ++ blanks).take (piece c rest).2 = rest.take (piece c rest).2 :=
        List.take_append_of_le_length hle
      have hdrop : (rest ++ blanks).drop (piece c rest).2 = rest.drop (piece c rest).2 ++ blanks :=
        List.drop_append_of_le_length hle
      cases hkind : (piece c rest).1 with
      | some kind =>
        rw [scan_of_kind (hsame ▸ hkind), hsame, htake, hdrop, List.forall_mem_cons] at hlegal
        rw [scan_of_kind (hsame ▸ hkind), scan_of_kind hkind, hsame, htake, hdrop,
          scan_append_blanks hblanks hlegal.2]
      | none =>
        rw [scan_of_trivia (hsame ▸ hkind), hsame, htake, hdrop] at hlegal
        rw [scan_of_trivia (hsame ▸ hkind), scan_of_trivia hkind, hsame, htake, hdrop,
          scan_append_blanks hblanks hlegal]
    · have hleft : ∀ d ∈ (rest ++ blanks).drop (piece c (rest ++ blanks)).2, isBlank d = true := by
        intro d hd
        rw [List.drop_append, List.drop_of_length_le hcount, List.nil_append] at hd
        exact hblanks d (List.mem_of_mem_drop hd)
      rw [scan_of_trivia hkind, scan_blanks hleft, scan_of_trivia (by rw [hcomment]), hcomment]
      simp [scan]
termination_by text.length
decreasing_by
  all_goals
    simp only [List.length_drop, List.length_cons]
    omega

theorem exists_trim (s : String) :
    ∃ lead trail, s.toList = lead ++ ((Text.trim s).toList ++ trail) ∧
      (∀ d ∈ lead, isBlank d = true) ∧ ∀ d ∈ trail, isBlank d = true := by
  have hback (cs : List Char) :
      cs = Text.trimRight isBlank cs ++ (cs.reverse.takeWhile isBlank).reverse := by
    rw [Text.trimRight, ← List.reverse_append, List.takeWhile_append_dropWhile,
      List.reverse_reverse]
  refine ⟨s.toList.takeWhile isBlank,
    ((s.toList.dropWhile isBlank).reverse.takeWhile isBlank).reverse, ?_, all_of_mem_takeWhile, ?_⟩
  · rw [Text.trim, String.toList_ofList, ← hback, List.takeWhile_append_dropWhile]
  · intro d hd
    exact all_of_mem_takeWhile d (List.mem_reverse.1 hd)

/-- A text without open quotes or stray characters has its tokens also without the blanks around
it. -/
theorem exists_tokens_eq_scan_trim {s : String} (hlegal : ∀ t ∈ tokens s, t.kind ≠ .illegal) :
    ∃ here, tokens s = scan here (Text.trim s).toList := by
  obtain ⟨lead, trail, hs, hlead, htrail⟩ := exists_trim s
  have htokens : tokens s = scan (advance (1, 1) lead) ((Text.trim s).toList ++ trail) := by
    rw [tokens, hs, scan_blanks_append hlead]
  rw [htokens] at hlegal
  exact ⟨_, htokens.trans (scan_append_blanks htrail hlegal)⟩

theorem advance_line (here here' : Nat × Nat) (cs : List Char) :
    (advance here cs).1 + here'.1 = (advance here' cs).1 + here.1 := by
  induction cs generalizing here here' with
  | nil => exact Nat.add_comm _ _
  | cons c cs ih =>
    rw [advance, advance]
    have hlater := ih (if c = '\n' then (here.1 + 1, 1) else (here.1, here.2 + 1))
      (if c = '\n' then (here'.1 + 1, 1) else (here'.1, here'.2 + 1))
    split at hlater
    · next hline =>
      rw [if_pos hline, if_pos hline]
      simp only at hlater
      omega
    · next hline =>
      rw [if_neg hline, if_neg hline]
      exact hlater

/-- A text that begins elsewhere has the same tokens, with their lines all moved alike. -/
theorem exists_pairs_scan (here here' : Nat × Nat) (text : List Char) :
    ∃ ps, ps.map Prod.fst = scan here text ∧ ps.map Prod.snd = scan here' text ∧
      Matched ps ∧ ∀ p ∈ ps, p.1.line + here'.1 = p.2.line + here.1 := by
  match text with
  | [] => exact ⟨[], by rw [scan]; rfl, by rw [scan]; rfl, by simp [Matched], by simp⟩
  | c :: rest =>
    let lexeme := c :: rest.take (piece c rest).2
    obtain ⟨ps, hfst, hsnd, hps, hlines⟩ :=
      exists_pairs_scan (advance here lexeme) (advance here' lexeme) (rest.drop (piece c rest).2)
    have hmoved := advance_line here here' lexeme
    have hlater : ∀ p ∈ ps, p.1.line + here'.1 = p.2.line + here.1 := by
      intro p hp
      have hline := hlines p hp
      omega
    cases hkind : (piece c rest).1 with
    | none =>
      rw [scan_of_trivia hkind, scan_of_trivia hkind]
      exact ⟨ps, hfst, hsnd, hps, hlater⟩
    | some kind =>
      rw [scan_of_kind hkind, scan_of_kind hkind, ← hfst, ← hsnd]
      refine ⟨(⟨kind, String.ofList lexeme, here.1, here.2⟩,
        ⟨kind, String.ofList lexeme, here'.1, here'.2⟩) :: ps, rfl, rfl, ?_, ?_⟩
      · exact List.forall_mem_cons.2 ⟨rfl, hps⟩
      · exact List.forall_mem_cons.2 ⟨Nat.add_comm _ _, hlater⟩
termination_by text.length
decreasing_by
  simp only [List.length_drop, List.length_cons]
  omega

theorem map_bare_scan (here here' : Nat × Nat) (text : List Char) :
    (scan here text).map Token.bare = (scan here' text).map Token.bare := by
  obtain ⟨ps, hfst, hsnd, hps, -⟩ := exists_pairs_scan here here' text
  rw [← hfst, ← hsnd, List.map_map, List.map_map]
  exact List.map_congr_left hps

theorem line_le_advance (here : Nat × Nat) (text : List Char) :
    here.1 ≤ (advance here text).1 := by
  have hfrom := advance_line here (0, 0) text
  omega

/-- The tokens of a text stand on its lines. -/
theorem line_of_mem_scan {here : Nat × Nat} {text : List Char} {t : Token}
    (h : t ∈ scan here text) : here.1 ≤ t.line ∧ t.line ≤ (advance here text).1 := by
  match text with
  | [] =>
    rw [scan] at h
    cases h
  | c :: rest =>
    let lexeme := c :: rest.take (piece c rest).2
    have hlater (h : t ∈ scan (advance here lexeme) (rest.drop (piece c rest).2)) :
        here.1 ≤ t.line ∧ t.line ≤ (advance here (c :: rest)).1 := by
      have hlines := line_of_mem_scan h
      rw [advance_piece] at hlines
      exact ⟨Nat.le_trans (line_le_advance here lexeme) hlines.1, hlines.2⟩
    cases hkind : (piece c rest).1 with
    | none =>
      rw [scan_of_trivia hkind] at h
      exact hlater h
    | some kind =>
      rw [scan_of_kind hkind] at h
      rcases List.mem_cons.1 h with rfl | h
      · exact ⟨Nat.le_refl _, line_le_advance here (c :: rest)⟩
      · exact hlater h
termination_by text.length
decreasing_by
  simp only [List.length_drop, List.length_cons]
  omega

theorem tokens_empty : tokens "" = [] := by
  rw [tokens, String.toList_empty, scan]

/-- The tokens of pieces on lines of their own come one after the other. -/
theorem tokens_intercalate_append (pieces others : List String) :
    ∃ here, tokens ("\n".intercalate (pieces ++ others)) =
        tokens ("\n".intercalate pieces) ++ scan here ("\n".intercalate others).toList ∧
      ∀ t ∈ tokens ("\n".intercalate pieces), t.line < here.1 := by
  have hlines : ∀ t ∈ tokens ("\n".intercalate pieces),
      t.line < (advance (1, 1) ("\n".intercalate pieces).toList).1 + 1 := fun t ht ↦
    Nat.lt_succ_of_le (line_of_mem_scan ht).2
  by_cases hpieces : pieces = []
  · refine ⟨(1, 1), ?_, ?_⟩
    · rw [hpieces, List.nil_append, String.intercalate_nil, tokens_empty, List.nil_append]
      rfl
    · rw [hpieces, String.intercalate_nil, tokens_empty]
      exact List.forall_mem_nil _
  refine ⟨((advance (1, 1) ("\n".intercalate pieces).toList).1 + 1, 1), ?_, hlines⟩
  by_cases hothers : others = []
  · rw [hothers, List.append_nil, String.intercalate_nil, String.toList_empty, scan,
      List.append_nil]
  · rw [String.intercalate_append_of_ne_nil hpieces hothers, tokens_append_newline]

/-- What holds of a row without tokens, of a text wherever it begins, and of two rows on lines one
after the other if it holds of both, holds of pieces on lines of their own. -/
theorem tokens_intercalate_induction {R : List Token → Prop} (hnil : R [])
    (hmove : ∀ here here' text, R (scan here text) → R (scan here' text))
    (happend : ∀ ts us, R ts → R us → (∀ t ∈ ts, ∀ u ∈ us, t.line < u.line) → R (ts ++ us))
    {pieces : List String} (h : ∀ piece ∈ pieces, R (tokens piece)) :
    R (tokens ("\n".intercalate pieces)) := by
  induction pieces with
  | nil =>
    rw [String.intercalate_nil, tokens_empty]
    exact hnil
  | cons piece pieces ih =>
    rw [List.forall_mem_cons] at h
    obtain ⟨here, htokens, hlines⟩ := tokens_intercalate_append [piece] pieces
    rw [List.singleton_append, String.intercalate_singleton] at htokens
    rw [String.intercalate_singleton] at hlines
    rw [htokens]
    apply happend _ _ h.1 (hmove (1, 1) here _ (ih h.2))
    intro t ht u hu
    exact Nat.lt_of_lt_of_le (hlines t ht) (line_of_mem_scan hu).1

theorem not_beginsTrivia_of_isWordStart (hc : isWordStart c = true) :
    ¬ BeginsTrivia (c :: rest) := by
  intro htrivia
  rcases beginsTrivia_cons.1 htrivia with hblank | ⟨rfl, -⟩
  · have hpart := isWordPart_of_isBlank hblank
    simp [isWordPart, hc] at hpart
  · revert hc
    decide

/-- A word that ends where a text or a blank follows is a token. -/
theorem scan_word {word rest : List Char} (hword : IsWord word)
    (hrest : ∀ d ∈ rest.head?, isWordPart d = false) (here : Nat × Nat) :
    scan here (word ++ rest) =
      ⟨Kind.ofWord (String.ofList word), String.ofList word, here.1, here.2⟩ ::
        scan (advance here word) rest := by
  cases word with
  | nil => exact hword.elim
  | cons c part =>
    obtain ⟨hc, hpart⟩ := hword
    have hrun : (part ++ rest).takeWhile isWordPart = part := by
      rw [List.takeWhile_append_of_pos hpart]
      cases rest with
      | nil => simp
      | cons d rest => simp [hrest d rfl]
    have hpiece : piece c (part ++ rest) =
        (some (Kind.ofWord (String.ofList (c :: part))), part.length) := by
      rw [piece_word (not_beginsTrivia_of_isWordStart hc) hc, hrun]
    rw [List.cons_append, scan_of_kind (congrArg Prod.fst hpiece), hpiece]
    simp only [List.take_left, List.drop_left]

theorem scan_blank {here : Nat × Nat} (hc : isBlank c = true) :
    scan here (c :: rest) = scan (advance here [c]) rest :=
  scan_blanks_append (List.forall_mem_singleton.2 hc)

theorem scan_word_blank {word : List Char} (hword : IsWord word) (here : Nat × Nat) :
    scan here (word ++ ' ' :: rest) =
      ⟨Kind.ofWord (String.ofList word), String.ofList word, here.1, here.2⟩ ::
        scan (advance (advance here word) [' ']) rest := by
  rw [scan_word hword, scan_blank (by decide)]
  rintro _ ⟨⟩
  decide

/-- The tokens of a text behind the word `print`. -/
theorem exists_scan_print (here : Nat × Nat) (text : String) :
    ∃ here', scan here ("print " ++ text).toList =
      ⟨.printWord, "print", here.1, here.2⟩ :: scan here' text.toList := by
  have hword : IsWord "print".toList := by
    simp [IsWord, IsRun]
    decide
  have hlist : ("print " ++ text).toList = "print".toList ++ ' ' :: text.toList := by
    rw [String.toList_append]
    rfl
  rw [hlist, scan_word_blank hword]
  exact ⟨_, rfl⟩

end Lexer

end ScriptAnalysis
