import Mathlib.Data.List.Chain
import ScriptAnalysis.Proofs.Placement
import ScriptAnalysis.Proofs.Recognition
import ScriptAnalysis.Proofs.Segments

/-!
# The text of an expression spells it out

The text of a node is made of its lexemes with nothing between them. In an expression no two lexemes
that follow each other run together, so the scanner finds them again in the text. Expressions with
the same text therefore have the same shape.
-/

namespace ScriptAnalysis

namespace Lexer

/-- Whether a token is a piece of some text. -/
def Lexed (t : Token) : Prop :=
  ∃ c rest count, piece c rest = (some t.kind, count) ∧
    t.lexeme.toList = c :: rest.take count

theorem lexed_of_mem_scan {here : Nat × Nat} {source : List Char} :
    ∀ t ∈ scan here source, Lexed t := by
  intro t ht
  obtain ⟨c, rest, hpiece, hlexeme⟩ := mem_scan ht
  refine ⟨c, rest, (piece c rest).2, ?_, ?_⟩
  · rw [← hpiece]
  · rw [hlexeme, String.toList_ofList]

/-- Whether a lexeme of a kind ends where a text follows it. -/
def Stops (kind : Kind) (more : List Char) : Prop :=
  ∀ d ∈ more.head?, if kind ∈ symbols then kind = .rightParen ∨ (d ≠ '=' ∧ d ≠ '/')
    else isWordPart d = false

variable {c : Char} {rest more : List Char} {kind : Kind} {count : Nat}

theorem ofWord_notMem_symbols (word : String) : Kind.ofWord word ∉ symbols := by
  unfold Kind.ofWord
  split <;> decide

theorem takeWhile_append_of_stops {p : Char → Bool} (hpart : ∀ d, p d = true → isWordPart d = true)
    (hkind : kind ∉ symbols) (h : Stops kind more) :
    (rest.takeWhile p ++ more).takeWhile p = rest.takeWhile p := by
  have hstop : more.takeWhile p = [] := by
    cases more with
    | nil => rfl
    | cons d more =>
      have hd := h d rfl
      rw [if_neg hkind] at hd
      have hp : ¬ p d = true := fun hp ↦ by simp [hpart d hp] at hd
      simp [hp]
  rw [List.takeWhile_append_of_pos all_of_mem_takeWhile, hstop, List.append_nil]

theorem not_beginsTrivia_of_piece (h : piece c rest = (some kind, count)) :
    ¬ BeginsTrivia (c :: rest) := by
  intro htrivia
  rcases beginsTrivia_cons.1 htrivia with hblank | ⟨rfl, hslash⟩
  · rw [piece_blank hblank] at h
    cases h
  · obtain ⟨line, rfl⟩ := List.head?_eq_some_iff.1 hslash
    obtain ⟨text, after, rfl, htext, hafter⟩ := exists_line line
    rw [piece_comment htext hafter] at h
    cases h

theorem not_beginsTrivia_of_stops (h : piece c rest = (some kind, count))
    (hstops : Stops kind more) : ¬ BeginsTrivia (c :: (rest.take count ++ more)) := by
  intro htrivia
  rcases beginsTrivia_cons.1 htrivia with hblank | ⟨rfl, hslash⟩
  · rw [piece_blank hblank] at h
    cases h
  · have hpair : pair? '/' rest = none := by
      unfold pair?
      split <;> rfl
    rw [piece_other (not_beginsTrivia_of_piece h) (by decide) (by decide) (by decide), hpair] at h
    cases h
    have hnext := hstops '/' hslash
    rw [if_pos (by decide)] at hnext
    simp [Kind.ofSymbol] at hnext

theorem pair?_of_stops (hkind : Kind.ofSymbol c ≠ .illegal)
    (hstops : Stops (Kind.ofSymbol c) more) : pair? c more = none := by
  cases hpair : pair? c more with
  | none => rfl
  | some pair =>
    obtain ⟨hhead, hof⟩ := pair?_eq_some_iff.1 hpair
    have hparen : Kind.ofSymbol c ≠ .rightParen := by
      unfold Kind.ofSymbolEquals? at hof
      split at hof <;> first | decide | cases hof
    have hnext := hstops '=' hhead
    rw [if_pos (ofSymbol_eq rfl hkind).1] at hnext
    exact absurd rfl (hnext.resolve_left hparen).1

/-- A piece that is no blank, comment or illegal character is a piece wherever it ends. -/
theorem piece_of_stops (h : piece c rest = (some kind, count)) (hkind : kind ≠ .illegal)
    (hstops : Stops kind more) : piece c (rest.take count ++ more) = (some kind, count) := by
  have hsolid := not_beginsTrivia_of_piece h
  have hsolid' := not_beginsTrivia_of_stops h hstops
  by_cases hword : isWordStart c = true
  · rw [piece_word hsolid hword] at h
    cases h
    rw [take_takeWhile_length] at hsolid' ⊢
    rw [piece_word hsolid' hword,
      takeWhile_append_of_stops (fun _ hd ↦ hd) (ofWord_notMem_symbols _) hstops]
  by_cases hdigit : isDigit c = true
  · rw [piece_digit hsolid hdigit] at h
    cases h
    rw [take_takeWhile_length] at hsolid' ⊢
    rw [piece_digit hsolid' hdigit,
      takeWhile_append_of_stops (fun d hd ↦ by simp [isWordPart, hd]) (by decide) hstops]
  by_cases hquote : c = '"'
  · subst hquote
    rw [piece_quote] at h
    rcases literalTail_cases rest with ⟨-, body, after, hbody, rfl⟩ | ⟨hopen, -⟩
    · rw [literalTail_of_body hbody] at h
      cases h
      have htake : (body ++ '"' :: after).take (body.length + 1) ++ more = body ++ '"' :: more := by
        rw [List.take_append, List.take_of_length_le (Nat.le_succ _)]
        simp
      rw [htake, piece_quote, literalTail_of_body hbody]
    · rw [hopen] at h
      cases h
      exact absurd rfl hkind
  rw [Bool.not_eq_true] at hword hdigit
  rw [piece_other hsolid hword hdigit hquote] at h
  rw [piece_other hsolid' hword hdigit hquote]
  cases hpair : pair? c rest with
  | some pair =>
    rw [hpair] at h
    cases h
    obtain ⟨hhead, hof⟩ := pair?_eq_some_iff.1 hpair
    obtain ⟨after, rfl⟩ := List.head?_eq_some_iff.1 hhead
    rw [pair?_eq_some_iff.2 ⟨rfl, hof⟩]
  | none =>
    rw [hpair] at h
    cases h
    rw [List.take_zero, List.nil_append, pair?_of_stops hkind hstops]

/-- Whether two tokens that follow each other stay two when their lexemes are put together. -/
def Apart (t u : Token) : Prop :=
  if t.kind ∈ symbols then t.kind = .rightParen ∨ u.kind ∉ [.assign, .equal, .slash]
  else u.kind ∈ symbols

/-- The kind of a token says with which characters its lexeme can begin. -/
theorem first_of_piece (h : piece c rest = (some kind, count)) :
    (kind ∉ [.assign, .equal, .slash] → c ≠ '=' ∧ c ≠ '/') ∧
      (kind ∈ symbols → isWordPart c = false) := by
  have hsolid := not_beginsTrivia_of_piece h
  constructor
  · intro hkind
    have hother (hword : isWordStart c = false) (hdigit : isDigit c = false) (hquote : c ≠ '"') :=
      (piece_other hsolid hword hdigit hquote).symm.trans h
    constructor
    · rintro rfl
      have hpiece := hother (by decide) (by decide) (by decide)
      cases hpair : pair? '=' rest with
      | none =>
        rw [hpair] at hpiece
        cases hpiece
        simp [Kind.ofSymbol] at hkind
      | some pair =>
        rw [hpair] at hpiece
        cases hpiece
        obtain ⟨-, hof⟩ := pair?_eq_some_iff.1 hpair
        cases hof
        simp at hkind
    · rintro rfl
      have hpiece := hother (by decide) (by decide) (by decide)
      have hpair : pair? '/' rest = none := by
        unfold pair?
        split <;> rfl
      rw [hpair] at hpiece
      cases hpiece
      simp [Kind.ofSymbol] at hkind
  · intro hkind
    by_cases hword : isWordStart c = true
    · rw [piece_word hsolid hword] at h
      cases h
      exact absurd hkind (ofWord_notMem_symbols _)
    · by_cases hdigit : isDigit c = true
      · rw [piece_digit hsolid hdigit] at h
        cases h
        exact absurd hkind (by decide)
      · simp [isWordPart, hword, hdigit]

theorem Apart.stops {t u : Token} (h : Apart t u) (hu : Lexed u) (more : List Char) :
    Stops t.kind (u.lexeme.toList ++ more) := by
  obtain ⟨c, rest, count, hpiece, hlexeme⟩ := hu
  obtain ⟨hsymbol, hword⟩ := first_of_piece hpiece
  intro d hd
  obtain rfl : c = d := by simpa [hlexeme] using hd
  unfold Apart at h
  split at h
  · next hkind =>
    rw [if_pos hkind]
    exact h.imp id hsymbol
  · next hkind =>
    rw [if_neg hkind]
    exact hword h

/-- A lexeme that ends where a text follows it is the first token there. -/
theorem scan_lexeme {t : Token} (ht : Lexed t) (hlegal : t.kind ≠ .illegal)
    (hstops : Stops t.kind more) (here : Nat × Nat) :
    scan here (t.lexeme.toList ++ more) =
      ⟨t.kind, t.lexeme, here.1, here.2⟩ :: scan (advance here t.lexeme.toList) more := by
  obtain ⟨c, rest, count, hpiece, hlexeme⟩ := ht
  have hcount : (rest.take count).length = count := by
    have hle := piece_le c rest
    rw [hpiece] at hle
    exact List.length_take_of_le hle
  have hpiece' := piece_of_stops hpiece hlegal hstops
  have hword : (rest.take count ++ more).take count = rest.take count := List.take_left' hcount
  have hrest : (rest.take count ++ more).drop count = more := List.drop_left' hcount
  rw [hlexeme, List.cons_append, scan_of_kind (congrArg Prod.fst hpiece'), hpiece', hword, hrest,
    ← hlexeme, String.ofList_toList]

/-- The characters of a row of tokens, with nothing between them. -/
def glued (ts : List Token) : List Char := ts.flatMap (·.lexeme.toList)

/-- Tokens that stay apart are found again in their characters. -/
theorem map_bare_scan_glued {ts : List Token} (hlexed : ∀ t ∈ ts, Lexed t)
    (hlegal : ∀ t ∈ ts, t.kind ≠ .illegal) (hapart : ts.IsChain Apart) (here : Nat × Nat) :
    (scan here (glued ts)).map Token.bare = ts.map Token.bare := by
  induction ts generalizing here with
  | nil => rw [glued, List.flatMap_nil, scan]
  | cons t ts ih =>
    rw [List.forall_mem_cons] at hlexed hlegal
    rw [List.isChain_cons] at hapart
    have hstops : Stops t.kind (glued ts) := by
      cases ts with
      | nil => simp [Stops, glued]
      | cons u us => exact (hapart.1 u rfl).stops (hlexed.2 u List.mem_cons_self) (glued us)
    have hglued : glued (t :: ts) = t.lexeme.toList ++ glued ts := List.flatMap_cons
    rw [hglued, scan_lexeme hlexed.1 hlegal.1 hstops, List.map_cons,
      ih hlexed.2 hlegal.2 hapart.2, List.map_cons]
    rfl

end Lexer

/-! ## Expressions -/

namespace Grammar

open Lexer (Apart Lexed glued symbols)
open ScriptAnalysis.Parser (startsExpr)

/-- Whether an expression can end with a token of this kind. -/
def endsExpr : Kind → Bool
  | .int | .string | .trueWord | .falseWord | .ident | .rightParen => true
  | _ => false

/-- Whether a row of tokens can stand behind a symbol without running together with it. -/
def Opens (ts : List Token) : Prop :=
  ∃ t more, ts = t :: more ∧ t.kind ∉ [.assign, .equal, .slash]

/-- Whether the tokens of a row stay apart when it is glued together, also from a symbol behind. -/
structure Solid (ts : List Token) : Prop where
  legal : ∀ t ∈ ts, t.kind ≠ .illegal
  apart : ts.IsChain Apart
  ends : ∀ t ∈ ts.getLast?, endsExpr t.kind = true

variable {ts us : List Token} {t : Token}

theorem Opens.append (h : Opens ts) (us : List Token) : Opens (ts ++ us) := by
  obtain ⟨t, more, rfl, ht⟩ := h
  exact ⟨t, more ++ us, rfl, ht⟩

theorem Opens.of_startsExpr (h : ∃ t more, ts = t :: more ∧ startsExpr t.kind = true) :
    Opens ts := by
  have hall : ∀ kind ∈ [Kind.assign, .equal, .slash], startsExpr kind = false := by decide
  obtain ⟨t, more, rfl, ht⟩ := h
  refine ⟨t, more, rfl, ?_⟩
  intro hkind
  rw [hall _ hkind] at ht
  cases ht

namespace Solid

theorem singleton (ht : endsExpr t.kind = true) : Solid [t] := by
  refine ⟨?_, List.isChain_singleton t, ?_⟩
  · rw [List.forall_mem_singleton]
    intro hkind
    rw [hkind] at ht
    cases ht
  · rintro _ ⟨⟩
    exact ht

/-- What begins with a symbol can follow. -/
theorem append (hts : Solid ts) (ht : t.kind ∈ symbols) (hus : Solid (t :: us)) :
    Solid (ts ++ t :: us) := by
  have hbetween : ∀ last ∈ ts.getLast?, Apart last t := by
    intro last hlast
    have hparen : ∀ kind ∈ symbols, endsExpr kind = true → kind = .rightParen := by decide
    unfold Apart
    split
    · next hkind => exact .inl (hparen _ hkind (hts.ends last hlast))
    · exact ht
  refine ⟨List.forall_mem_append.2 ⟨hts.legal, hus.legal⟩,
    List.isChain_append.2 ⟨hts.apart, hus.apart, ?_⟩, ?_⟩
  · rintro last hlast _ ⟨⟩
    exact hbetween last hlast
  · rw [List.getLast?_append_of_ne_nil _ (List.cons_ne_nil t us)]
    exact hus.ends

theorem cons (ht : t.kind ∈ symbols) (hus : Solid us) (hopens : Opens us) : Solid (t :: us) := by
  have hlegal : t.kind ≠ .illegal := fun hkind ↦ absurd (hkind ▸ ht) (by decide)
  obtain ⟨u, more, rfl, hu⟩ := hopens
  have hfirst : Apart t u := by
    unfold Apart
    rw [if_pos ht]
    exact .inr hu
  refine ⟨List.forall_mem_cons.2 ⟨hlegal, hus.legal⟩,
    List.isChain_cons_cons.2 ⟨hfirst, hus.apart⟩, ?_⟩
  rw [List.getLast?_cons_cons]
  exact hus.ends

theorem rightParen (ht : t.kind = .rightParen) : Solid [t] := by
  apply singleton
  rw [ht]
  rfl

theorem close (hts : Solid ts) (ht : t.kind = .rightParen) : Solid (ts ++ [t]) := by
  apply hts.append _ (rightParen ht)
  rw [ht]
  decide

end Solid

theorem operator_mem_symbols {kind : Kind} {op : Operator} (h : Operator.ofKind? kind = some op) :
    kind ∈ symbols := by
  cases kind <;> first | decide | cases h

theorem Arguments.opens {args : List (Expr Extent)} (h : Arguments ts args) : Opens ts := by
  cases h with
  | @none r hr =>
    refine ⟨r, [], rfl, ?_⟩
    rw [hr]
    decide
  | some h =>
    cases h with
    | last h _ | more h _ _ => exact (Opens.of_startsExpr h.starts).append _

mutual

theorem Expression.solid {level : Nat} {ts : List Token} {e : Expr Extent} :
    Expression level ts e → Solid ts
  | .unary h => h.solid
  | .operand h => h.solid
  | .operation hl hop _ hr =>
    have hsymbol := operator_mem_symbols hop
    hl.solid.append hsymbol (.cons hsymbol hr.solid (.of_startsExpr hr.starts))

theorem Unary.solid {ts : List Token} {e : Expr Extent} : Unary ts e → Solid ts
  | .negate ht h => by
    apply Solid.cons _ h.solid (.of_startsExpr h.starts)
    rcases ht with ht | ht
    · rw [ht]
      decide
    · rw [ht]
      decide
  | .primary h => h.solid

theorem Primary.solid {ts : List Token} {e : Expr Extent} : Primary ts e → Solid ts
  | .int ht | .string ht | .true ht | .false ht | .ident ht => by
    apply Solid.singleton
    rw [ht]
    rfl
  | .call h => h.solid
  | .parens hl h hr => by
    apply Solid.cons _ (h.solid.close hr) ((Opens.of_startsExpr h.starts).append _)
    rw [hl]
    decide

theorem Call.solid {ts : List Token} {note : Extent} {callee : String} {args : List (Expr Extent)} :
    Call ts note callee args → Solid ts
  | @Call.mk name l us args hn hl h => by
    have hsymbol : l.kind ∈ symbols := by
      rw [hl]
      decide
    have hname : Solid [name] := by
      apply Solid.singleton
      rw [hn]
      rfl
    exact hname.append hsymbol (.cons hsymbol h.solid h.opens)

theorem Arguments.solid {ts : List Token} {args : List (Expr Extent)} :
    Arguments ts args → Solid ts
  | .none hr => .rightParen hr
  | .some h => h.solid

theorem ArgumentList.solid {ts : List Token} {args : List (Expr Extent)} :
    ArgumentList ts args → Solid ts
  | .last h hr => h.solid.close hr
  | @ArgumentList.more _ us _ args comma h hc hs => by
    have hsymbol : comma.kind ∈ symbols := by
      rw [hc]
      decide
    have hopens : Opens us := (Arguments.some hs).opens
    exact h.solid.append hsymbol (.cons hsymbol hs.solid hopens)

end

theorem Primary.note_eq {e : Expr Extent} (h : Primary ts e) (hne : ts ≠ []) :
    e.note = .spanning ts hne := by
  cases h with
  | call h =>
    cases h
    rfl
  | _ => rfl

theorem Unary.note_eq {e : Expr Extent} (h : Unary ts e) (hne : ts ≠ []) :
    e.note = .spanning ts hne := by
  cases h with
  | negate => rfl
  | primary h => exact h.note_eq hne

/-- The note of an expression is the extent of its tokens. -/
theorem Expression.note_eq {level : Nat} {ts : List Token} {e : Expr Extent} :
    Expression level ts e → ∀ hne : ts ≠ [], e.note = .spanning ts hne
  | .unary h, hne => h.note_eq hne
  | .operand h, hne => h.note_eq hne
  | .operation .., _ => rfl

theorem Expression.toList_text {e : Expr Extent} (h : Expression 3 ts e) :
    e.note.text.toList = glued ts := by
  rw [h.note_eq h.ne_nil, Extent.spanning, String.toList_join, List.flatMap_map, glued]

theorem Expression.unique {e e' : Expr Extent} (h : Expression 3 ts e) (h' : Expression 3 ts e') :
    e = e' := by
  have hwhole {e : Expr Extent} (h : Expression 3 ts e) :
      Standalone (ts ++ [⟨.eof, "", 1, 1⟩]) e := .mk h rfl
  exact (hwhole h).unique (hwhole h')

/-- Expressions with the same text have the same shape and the same texts inside. -/
theorem Expression.map_text_eq {e e' : Expr Extent} (h : Expression 3 ts e)
    (h' : Expression 3 us e') (hts : ∀ t ∈ ts, Lexed t) (hus : ∀ t ∈ us, Lexed t)
    (htext : e.note.text = e'.note.text) : e.map Extent.text = e'.map Extent.text := by
  have hglued : glued ts = glued us := by
    rw [← h.toList_text, ← h'.toList_text, htext]
  have hbare : ts.map Token.bare = us.map Token.bare := by
    rw [← Lexer.map_bare_scan_glued hts h.solid.legal h.solid.apart (1, 1), hglued,
      Lexer.map_bare_scan_glued hus h'.solid.legal h'.solid.apart]
  obtain ⟨ps, hfst, rfl, hps⟩ := Matched.exists_pairs hbare
  obtain ⟨placed, hplaced, heq⟩ := h.placed hps hfst
  rw [← heq, hplaced.unique h']

end Grammar

end ScriptAnalysis
