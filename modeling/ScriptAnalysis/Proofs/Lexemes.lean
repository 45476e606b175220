import ScriptAnalysis.Proofs.Lexing

/-!
# What a lexeme is

The classes of lexemes are told by their characters alone: words, numbers, string literals and
symbols. A text that begins with neither a blank nor a comment begins with the longest lexeme that
one of the classes has for it. If none has one, its first character is illegal, and with it the rest
of the line if the character is a quote.
-/

namespace ScriptAnalysis.Lexer

open Text (isBlank)

/-- Whether a text begins with one character of a class and goes on with characters of another. -/
def IsRun (first part : Char → Bool) : List Char → Prop
  | [] => False
  | c :: rest => first c = true ∧ ∀ d ∈ rest, part d = true

/-- Names, reserved words and the names of types. -/
def IsWord : List Char → Prop := IsRun isWordStart isWordPart

def IsNumber : List Char → Prop := IsRun isDigit isDigit

/-- What may stand between the quotes of a string literal. A backslash takes the next character with
it, and nothing takes the end of the line. -/
inductive LiteralBody : List Char → Prop
  | nil : LiteralBody []
  | plain {c : Char} {body : List Char} (hc : c ≠ '"' ∧ c ≠ '\\' ∧ c ≠ '\n')
    (h : LiteralBody body) : LiteralBody (c :: body)
  | escaped {c : Char} {body : List Char} (hc : c ≠ '\n') (h : LiteralBody body) :
    LiteralBody ('\\' :: c :: body)

def IsLiteral (cs : List Char) : Prop := ∃ body, LiteralBody body ∧ cs = '"' :: (body ++ ['"'])

/-- The kinds of symbols, each of which is called by its spelling. -/
def symbols : List Kind :=
  [.assign, .plus, .minus, .star, .slash, .bang, .leftParen, .rightParen, .leftBrace, .rightBrace,
    .colon, .comma, .less, .lessEqual, .greater, .greaterEqual, .equal, .notEqual]

def IsSymbol (cs : List Char) : Prop := ∃ kind ∈ symbols, cs = kind.name.toList

/-- The kinds of reserved words, each of which is called by its spelling. -/
def reservedWords : List Kind :=
  [.funcWord, .varWord, .whileWord, .ifWord, .elseWord, .printWord, .returnWord, .trueWord,
    .falseWord]

def typeNames : List String := ["Int", "Bool", "String"]

inductive WordKind : List Char → Kind → Prop
  | reserved {kind : Kind} (h : kind ∈ reservedWords) : WordKind kind.name.toList kind
  | type {name : String} (h : name ∈ typeNames) : WordKind name.toList .type
  | ident {word : List Char} (hreserved : ∀ kind ∈ reservedWords, word ≠ kind.name.toList)
    (htype : ∀ name ∈ typeNames, word ≠ name.toList) : WordKind word .ident

/-- Whether a lexeme belongs to a class and no longer beginning of the text does. -/
structure LongestIn (admits : List Char → Prop) (text lexeme : List Char) : Prop where
  belongs : admits lexeme
  begins : lexeme <+: text
  longest : ∀ other, admits other → other <+: text → other.length ≤ lexeme.length

/-- The lexeme that a text begins with, and its kind. -/
inductive Munches (text : List Char) : Kind → List Char → Prop
  | word {kind : Kind} {lexeme : List Char} (h : LongestIn IsWord text lexeme)
    (hkind : WordKind lexeme kind) : Munches text kind lexeme
  | number {lexeme : List Char} (h : LongestIn IsNumber text lexeme) : Munches text .int lexeme
  | literal {lexeme : List Char} (h : LongestIn IsLiteral text lexeme) :
    Munches text .string lexeme
  | symbol {kind : Kind} (hkind : kind ∈ symbols) (h : LongestIn IsSymbol text kind.name.toList) :
    Munches text kind kind.name.toList
  | unclosed {line rest : List Char} (htext : text = '"' :: (line ++ rest)) (hline : '\n' ∉ line)
    (hrest : ∀ c ∈ rest.head?, c = '\n') (hopen : ∀ lexeme, lexeme <+: text → ¬ IsLiteral lexeme) :
    Munches text .illegal ('"' :: line)
  | stray {c : Char} {rest : List Char} (htext : text = c :: rest) (hquote : c ≠ '"')
    (hnone : ∀ lexeme, lexeme <+: text →
      ¬ IsWord lexeme ∧ ¬ IsNumber lexeme ∧ ¬ IsLiteral lexeme ∧ ¬ IsSymbol lexeme) :
    Munches text .illegal [c]

/-- Whether a text begins with a blank or a comment. -/
def BeginsTrivia (text : List Char) : Prop :=
  (∃ c ∈ text.head?, isBlank c = true) ∨ ['/', '/'] <+: text

variable {c : Char} {rest lexeme : List Char} {kind : Kind}

section

variable {first part : Char → Bool}

theorem all_of_mem_takeWhile {p : Char → Bool} {text : List Char} :
    ∀ d ∈ text.takeWhile p, p d = true :=
  List.all_eq_true.1 List.all_takeWhile

theorem prefix_takeWhile {p : Char → Bool} {text word : List Char} (h : word <+: text)
    (hword : ∀ d ∈ word, p d = true) : word <+: text.takeWhile p := by
  obtain ⟨more, rfl⟩ := h
  rw [List.takeWhile_append_of_pos hword]
  exact List.prefix_append word _

/-- The longest run at the front of a text takes all characters that can belong to it. -/
theorem longestIn_run_iff :
    LongestIn (IsRun first part) (c :: rest) lexeme ↔
      first c = true ∧ lexeme = c :: rest.takeWhile part := by
  constructor
  · intro h
    cases lexeme with
    | nil => exact h.belongs.elim
    | cons d word =>
      obtain ⟨rfl, hword⟩ := List.cons_prefix_cons.1 h.begins
      have hall : IsRun first part (d :: rest.takeWhile part) :=
        ⟨h.belongs.1, all_of_mem_takeWhile⟩
      have hlength : (rest.takeWhile part).length ≤ word.length := by
        have hle := h.longest _ hall (List.cons_prefix_cons.2 ⟨rfl, List.takeWhile_prefix part⟩)
        simpa using hle
      have hfront : word <+: rest.takeWhile part := prefix_takeWhile hword h.belongs.2
      exact ⟨h.belongs.1, congrArg (d :: ·) (hfront.eq_of_length_le hlength)⟩
  · intro h
    obtain ⟨hfirst, rfl⟩ := h
    constructor
    · exact ⟨hfirst, all_of_mem_takeWhile⟩
    · exact List.cons_prefix_cons.2 ⟨rfl, List.takeWhile_prefix part⟩
    · intro other hother hbegins
      cases other with
      | nil => exact hother.elim
      | cons d word =>
        have hword : word <+: rest.takeWhile part :=
          prefix_takeWhile (List.cons_prefix_cons.1 hbegins).2 hother.2
        simpa using hword.length_le

theorem isRun_singleton (hfirst : first c = true) : IsRun first part [c] := by
  simp [IsRun, hfirst]

end

theorem ofWord_of_reserved : ∀ kind ∈ reservedWords, Kind.ofWord kind.name = kind := by decide

theorem ofWord_of_typeName : ∀ name ∈ typeNames, Kind.ofWord name = .type := by decide

theorem ofWord_of_other {word : String} (hreserved : ∀ kind ∈ reservedWords, word ≠ kind.name)
    (htype : word ∉ typeNames) : Kind.ofWord word = .ident := by
  simp [reservedWords, typeNames, Kind.name] at hreserved htype
  unfold Kind.ofWord
  split <;> simp_all

theorem wordKind_iff {word : List Char} :
    WordKind word kind ↔ kind = Kind.ofWord (String.ofList word) := by
  have hspell (name : String) : word = name.toList ↔ String.ofList word = name := by
    rw [← String.toList_inj, String.toList_ofList]
  constructor
  · intro h
    cases h with
    | reserved h => rw [String.ofList_toList, ofWord_of_reserved kind h]
    | type h => rw [String.ofList_toList, ofWord_of_typeName _ h]
    | ident hreserved htype =>
      simp only [ne_eq, hspell] at hreserved htype
      exact (ofWord_of_other hreserved fun h ↦ htype _ h rfl).symm
  · intro h
    subst h
    by_cases hreserved : ∃ kind ∈ reservedWords, word = kind.name.toList
    · obtain ⟨kind, hkind, rfl⟩ := hreserved
      rw [String.ofList_toList, ofWord_of_reserved kind hkind]
      exact .reserved hkind
    · by_cases htype : ∃ name ∈ typeNames, word = name.toList
      · obtain ⟨name, hname, rfl⟩ := htype
        rw [String.ofList_toList, ofWord_of_typeName name hname]
        exact .type hname
      · simp only [not_exists, not_and] at hreserved htype
        have hother : Kind.ofWord (String.ofList word) = .ident := by
          apply ofWord_of_other
          · intro kind hkind hname
            exact hreserved kind hkind ((hspell _).2 hname)
          · intro hname
            exact htype _ hname ((hspell _).2 rfl)
        rw [hother]
        exact .ident hreserved htype

theorem literalTail_of_body {body : List Char} (h : LiteralBody body) (more : List Char) :
    literalTail (body ++ '"' :: more) = (body.length + 1, true) := by
  induction h with
  | nil => rfl
  | @plain c body hc h ih =>
    have hescape : c ≠ '\\' := hc.2.1
    rw [List.cons_append, literalTail, ih]
    · rfl
    all_goals simp_all
  | @escaped c body hc h ih =>
    rw [List.cons_append, List.cons_append, literalTail, ih]
    · rfl
    · exact hc

/-- A literal that is closed has a body, and one that is not takes the rest of its line. -/
theorem literalTail_cases (rest : List Char) :
    ((literalTail rest).2 = true ∧ ∃ body more, LiteralBody body ∧ rest = body ++ '"' :: more) ∨
      ((literalTail rest).2 = false ∧
        rest.take (literalTail rest).1 = rest.takeWhile (· ≠ '\n')) := by
  fun_induction literalTail rest with
  | case1 => simp
  | case2 => simp
  | case3 more => exact .inl ⟨rfl, [], more, .nil, rfl⟩
  | case4 => simp
  | case5 => simp
  | case6 c rest hc count closed htail ih =>
    rw [htail] at ih
    rcases ih with ⟨hclosed, body, more, hbody, rfl⟩ | ⟨hopen, htake⟩
    · exact .inl ⟨hclosed, '\\' :: c :: body, more, .escaped hc hbody, rfl⟩
    · have hnewline : c ≠ '\n' := hc
      right
      exact ⟨hopen, by simpa [hnewline] using htake⟩
  | case7 c rest hline hquote hend hline' hescape count closed htail ih =>
    rw [htail] at ih
    have hslash : c ≠ '\\' := by
      intro hc
      cases rest with
      | nil => exact hend hc rfl
      | cons d rest => exact hescape d rest hc rfl
    rcases ih with ⟨hclosed, body, more, hbody, rfl⟩ | ⟨hopen, htake⟩
    · exact .inl ⟨hclosed, c :: body, more, .plain ⟨hquote, hslash, hline⟩ hbody, rfl⟩
    · have hnewline : c ≠ '\n' := hline
      right
      exact ⟨hopen, by simpa [hnewline] using htake⟩

/-- Every literal at the front of a text is as long as the scanner finds it. -/
theorem eq_of_isLiteral (h : IsLiteral lexeme) (hbegins : lexeme <+: c :: rest) :
    c = '"' ∧ (literalTail rest).2 = true ∧ lexeme = '"' :: rest.take (literalTail rest).1 := by
  obtain ⟨body, hbody, rfl⟩ := h
  obtain ⟨hquote, more, rfl⟩ := List.cons_prefix_cons.1 hbegins
  have htail := literalTail_of_body hbody more
  rw [List.append_assoc, List.singleton_append, htail, List.take_append]
  exact ⟨hquote.symm, rfl, by simp [List.take_of_length_le]⟩

theorem longestIn_literal_iff :
    LongestIn IsLiteral (c :: rest) lexeme ↔
      c = '"' ∧ (literalTail rest).2 = true ∧ lexeme = '"' :: rest.take (literalTail rest).1 := by
  constructor
  · intro h
    exact eq_of_isLiteral h.belongs h.begins
  · rintro ⟨rfl, hclosed, rfl⟩
    rcases literalTail_cases rest with ⟨-, body, more, hbody, rfl⟩ | ⟨hopen, -⟩
    · have hliteral : IsLiteral ('"' :: (body ++ ['"'])) := ⟨body, hbody, rfl⟩
      have hbegins : '"' :: (body ++ ['"']) <+: '"' :: (body ++ '"' :: more) := by simp
      have hlength := (eq_of_isLiteral hliteral hbegins).2.2
      rw [← hlength]
      refine ⟨hliteral, hbegins, fun other hother hbegins' ↦ ?_⟩
      have hsame := (eq_of_isLiteral hother hbegins').2.2.trans hlength.symm
      exact Nat.le_of_eq (congrArg List.length hsame)
    · simp [hopen] at hclosed

theorem ofSymbol_eq (h : Kind.ofSymbol c = kind) (hkind : kind ≠ .illegal) :
    kind ∈ symbols ∧ kind.name.toList = [c] := by
  unfold Kind.ofSymbol at h
  split at h <;> subst h <;> simp_all [symbols, Kind.name]

theorem ofSymbolEquals?_eq (h : Kind.ofSymbolEquals? c = some kind) :
    kind ∈ symbols ∧ kind.name.toList = [c, '='] := by
  unfold Kind.ofSymbolEquals? at h
  split at h <;> cases h <;> decide

/-- A symbol is one character, or two of which the second is an equals sign. -/
theorem symbol_cases (hkind : kind ∈ symbols) :
    (∃ c, kind.name.toList = [c] ∧ Kind.ofSymbol c = kind) ∨
      ∃ c, kind.name.toList = [c, '='] ∧ Kind.ofSymbolEquals? c = some kind := by
  have hall : ∀ kind ∈ symbols, kind.name.toList.map Kind.ofSymbol = [kind] ∨
      (kind.name.toList.tail = ['='] ∧
        kind.name.toList.head?.bind Kind.ofSymbolEquals? = some kind) := by
    decide
  rcases hall kind hkind with hone | ⟨htail, hhead⟩
  · exact .inl (List.map_eq_singleton_iff.1 hone)
  · obtain ⟨c, hc, hof⟩ := Option.bind_eq_some_iff.1 hhead
    obtain ⟨others, hname⟩ := List.head?_eq_some_iff.1 hc
    rw [hname, List.tail_cons] at htail
    exact .inr ⟨c, by rw [hname, htail], hof⟩

/-- The kind of a symbol of two characters at the front of a text. -/
def pair? (c : Char) (rest : List Char) : Option Kind :=
  if rest.head? = some '=' then Kind.ofSymbolEquals? c else none

theorem pair?_eq_some_iff :
    pair? c rest = some kind ↔ rest.head? = some '=' ∧ Kind.ofSymbolEquals? c = some kind := by
  unfold pair?
  split <;> simp_all

theorem cons_take_one {pair : Kind} (h : pair? c rest = some pair) :
    c :: rest.take 1 = pair.name.toList := by
  obtain ⟨hhead, hof⟩ := pair?_eq_some_iff.1 h
  obtain ⟨more, rfl⟩ := List.head?_eq_some_iff.1 hhead
  exact (ofSymbolEquals?_eq hof).2.symm

theorem pair_prefix_iff : [c, '='] <+: c :: rest ↔ rest.head? = some '=' := by
  cases rest <;> simp [List.cons_prefix_cons, @eq_comm Char '=']

/-- The symbols at the front of a text have one character or two. -/
theorem symbol_at_front (hkind : kind ∈ symbols) (hbegins : kind.name.toList <+: c :: rest) :
    (kind.name.toList = [c] ∧ Kind.ofSymbol c = kind) ∨
      (kind.name.toList = [c, '='] ∧ pair? c rest = some kind) := by
  rcases symbol_cases hkind with ⟨d, hname, hof⟩ | ⟨d, hname, hof⟩
  · rw [hname] at hbegins
    obtain ⟨rfl, -⟩ := List.cons_prefix_cons.1 hbegins
    exact .inl ⟨hname, hof⟩
  · rw [hname] at hbegins
    obtain ⟨rfl, -⟩ := List.cons_prefix_cons.1 hbegins
    exact .inr ⟨hname, pair?_eq_some_iff.2 ⟨pair_prefix_iff.1 hbegins, hof⟩⟩

/-- Two characters that are one symbol are not taken for two. -/
theorem longestIn_symbol_iff :
    (kind ∈ symbols ∧ LongestIn IsSymbol (c :: rest) kind.name.toList) ↔
      match pair? c rest with
      | some pair => kind = pair
      | none => kind = Kind.ofSymbol c ∧ kind ≠ .illegal := by
  cases hpair : pair? c rest with
  | some pair =>
    obtain ⟨hhead, hof⟩ := pair?_eq_some_iff.1 hpair
    obtain ⟨hmem, hname⟩ := ofSymbolEquals?_eq hof
    have hbegins : pair.name.toList <+: c :: rest := by
      rw [hname]
      exact pair_prefix_iff.2 hhead
    constructor
    · rintro ⟨hkind, h⟩
      have hlength := h.longest _ ⟨pair, hmem, rfl⟩ hbegins
      rcases symbol_at_front hkind h.begins with ⟨hsingle, -⟩ | ⟨-, hpair'⟩
      · simp [hsingle, hname] at hlength
      · exact Option.some.inj (hpair'.symm.trans hpair)
    · rintro rfl
      refine ⟨hmem, ⟨kind, hmem, rfl⟩, hbegins, ?_⟩
      rintro _ ⟨other, hother, rfl⟩ hbegins'
      rcases symbol_at_front hother hbegins' with ⟨hname', -⟩ | ⟨hname', -⟩ <;> simp [hname, hname']
  | none =>
    constructor
    · rintro ⟨hkind, h⟩
      have hillegal : kind ≠ .illegal := by
        rintro rfl
        exact absurd hkind (by decide)
      rcases symbol_at_front hkind h.begins with ⟨-, hof⟩ | ⟨-, hpair'⟩
      · exact ⟨hof.symm, hillegal⟩
      · simp [hpair] at hpair'
    · rintro ⟨hof, hillegal⟩
      obtain ⟨hmem, hname⟩ := ofSymbol_eq hof.symm hillegal
      rw [hname]
      refine ⟨hmem, ⟨kind, hmem, hname.symm⟩, by simp, ?_⟩
      rintro _ ⟨other, hother, rfl⟩ hbegins'
      rcases symbol_at_front hother hbegins' with ⟨hname', -⟩ | ⟨-, hpair'⟩
      · simp [hname']
      · simp [hpair] at hpair'

theorem isWordStart_of_isDigit (h : isDigit c = true) : isWordStart c = false := by
  simp only [isDigit, Bool.and_eq_true, decide_eq_true_eq] at h
  have hcode : c.toNat ≤ 57 := h.2
  have hletter : Text.isLetter c = false := by
    rw [Text.isLetter, Text.letterRanges, Text.inRanges, if_pos (by omega)]
  have hline : c ≠ '_' := by
    intro hc
    rw [hc] at hcode
    exact absurd hcode (by decide)
  simp [isWordStart, hletter, hline]

theorem of_ofSymbol_ne_illegal (h : Kind.ofSymbol c ≠ .illegal) :
    isWordStart c = false ∧ isDigit c = false ∧ c ≠ '"' := by
  unfold Kind.ofSymbol at h
  split at h <;> first | decide | exact absurd rfl h

/-- The first character of a symbol. -/
theorem ofSymbol_of_longestIn (hkind : kind ∈ symbols)
    (h : LongestIn IsSymbol (c :: rest) kind.name.toList) : Kind.ofSymbol c ≠ .illegal := by
  have hall : ∀ kind ∈ symbols, kind.name.toList.head?.map Kind.ofSymbol ≠ some .illegal := by
    decide
  have hhead : kind.name.toList.head? = some c := by
    rcases symbol_at_front hkind h.begins with ⟨hname, -⟩ | ⟨hname, -⟩ <;> rw [hname] <;> rfl
  have hne := hall kind hkind
  rw [hhead] at hne
  exact fun hillegal ↦ hne (congrArg some hillegal)

/-! ## The scanner takes the longest lexeme -/

theorem beginsTrivia_cons :
    BeginsTrivia (c :: rest) ↔ isBlank c = true ∨ (c = '/' ∧ rest.head? = some '/') := by
  unfold BeginsTrivia
  cases rest <;> simp [List.cons_prefix_cons, @eq_comm Char '/']

section

variable (hsolid : ¬ BeginsTrivia (c :: rest))

include hsolid

theorem piece_word (h : isWordStart c = true) :
    piece c rest = (some (Kind.ofWord (String.ofList (c :: rest.takeWhile isWordPart))),
      (rest.takeWhile isWordPart).length) := by
  simp only [beginsTrivia_cons, not_or] at hsolid
  simp [piece, hsolid.1, h]

theorem piece_digit (h : isDigit c = true) :
    piece c rest = (some .int, (rest.takeWhile isDigit).length) := by
  simp only [beginsTrivia_cons, not_or] at hsolid
  simp [piece, hsolid.1, isWordStart_of_isDigit h, h]

end

theorem piece_quote :
    piece '"' rest =
      (some (if (literalTail rest).2 then .string else .illegal), (literalTail rest).1) := by
  have hfirst : isBlank '"' = false ∧ isWordStart '"' = false ∧ isDigit '"' = false := by decide
  simp [piece, hfirst]

theorem piece_other (hsolid : ¬ BeginsTrivia (c :: rest)) (hword : isWordStart c = false)
    (hdigit : isDigit c = false) (hquote : c ≠ '"') :
    piece c rest = match pair? c rest with
      | some pair => (some pair, 1)
      | none => (some (Kind.ofSymbol c), 0) := by
  simp only [beginsTrivia_cons, not_or] at hsolid
  simp only [piece, hsolid, hword, hdigit, hquote, pair?]
  rfl

theorem takeWhile_line {line more : List Char} (hline : '\n' ∉ line)
    (hmore : ∀ c ∈ more.head?, c = '\n') : (line ++ more).takeWhile (· ≠ '\n') = line := by
  have hplain : ∀ c ∈ line, decide (c ≠ '\n') = true := by
    intro c hc
    simpa using ne_of_mem_of_not_mem hc hline
  have hstop : more.takeWhile (· ≠ '\n') = [] := by
    cases more with
    | nil => rfl
    | cons c more => simp [hmore c rfl]
  rw [List.takeWhile_append_of_pos hplain, hstop, List.append_nil]

theorem head?_dropWhile_line (text : List Char) :
    ∀ c ∈ (text.dropWhile (· ≠ '\n')).head?, c = '\n' := by
  intro c hc
  have hhead := List.head?_dropWhile_not (· ≠ '\n') text
  rw [Option.mem_def.1 hc] at hhead
  simpa using hhead

theorem munches_unclosed (h : (literalTail rest).2 = false) :
    Munches ('"' :: rest) .illegal ('"' :: rest.take (literalTail rest).1) := by
  rcases literalTail_cases rest with ⟨hclosed, -⟩ | ⟨-, htake⟩
  · simp [h] at hclosed
  · rw [htake]
    apply Munches.unclosed
    · rw [List.takeWhile_append_dropWhile]
    · intro hmem
      simpa using all_of_mem_takeWhile _ hmem
    · exact head?_dropWhile_line rest
    · intro lexeme hbegins hliteral
      have hclosed := (eq_of_isLiteral hliteral hbegins).2.1
      simp [h] at hclosed

theorem munches_stray (hword : isWordStart c = false) (hdigit : isDigit c = false)
    (hquote : c ≠ '"') (hpair : pair? c rest = none) (hsymbol : Kind.ofSymbol c = .illegal) :
    Munches (c :: rest) .illegal [c] := by
  apply Munches.stray rfl hquote
  intro lexeme hbegins
  refine ⟨?_, ?_, ?_, ?_⟩
  · intro h
    cases lexeme with
    | nil => exact h
    | cons d word =>
      have hfirst := h.1
      rw [(List.cons_prefix_cons.1 hbegins).1, hword] at hfirst
      cases hfirst
  · intro h
    cases lexeme with
    | nil => exact h
    | cons d word =>
      have hfirst := h.1
      rw [(List.cons_prefix_cons.1 hbegins).1, hdigit] at hfirst
      cases hfirst
  · intro h
    exact hquote (eq_of_isLiteral h hbegins).1
  · rintro ⟨kind, hkind, rfl⟩
    rcases symbol_at_front hkind hbegins with ⟨-, hof⟩ | ⟨-, hpair'⟩
    · rw [← hof, hsymbol] at hkind
      exact absurd hkind (by decide)
    · simp [hpair] at hpair'

/-- What the scanner cuts off the front of a text is the lexeme that the text begins with. -/
theorem munches_piece (hsolid : ¬ BeginsTrivia (c :: rest)) :
    ∃ kind, (piece c rest).1 = some kind ∧
      Munches (c :: rest) kind (c :: rest.take (piece c rest).2) := by
  by_cases hword : isWordStart c = true
  · rw [piece_word hsolid hword, take_takeWhile_length]
    exact ⟨_, rfl, .word (longestIn_run_iff.2 ⟨hword, rfl⟩) (wordKind_iff.2 rfl)⟩
  by_cases hdigit : isDigit c = true
  · rw [piece_digit hsolid hdigit, take_takeWhile_length]
    exact ⟨_, rfl, .number (longestIn_run_iff.2 ⟨hdigit, rfl⟩)⟩
  by_cases hquote : c = '"'
  · subst hquote
    rw [piece_quote]
    cases hclosed : (literalTail rest).2 with
    | true => exact ⟨_, rfl, .literal (longestIn_literal_iff.2 ⟨rfl, hclosed, rfl⟩)⟩
    | false => exact ⟨_, rfl, munches_unclosed hclosed⟩
  rw [Bool.not_eq_true] at hword hdigit
  rw [piece_other hsolid hword hdigit hquote]
  have hsymbol (kind : Kind) := @longestIn_symbol_iff c rest kind
  cases hpair : pair? c rest with
  | some pair =>
    obtain ⟨hmem, hlongest⟩ := (hsymbol pair).2 (by rw [hpair])
    refine ⟨pair, rfl, ?_⟩
    rw [cons_take_one hpair]
    exact .symbol hmem hlongest
  | none =>
    by_cases hillegal : Kind.ofSymbol c = .illegal
    · exact ⟨.illegal, congrArg some hillegal, munches_stray hword hdigit hquote hpair hillegal⟩
    · obtain ⟨hmem, hlongest⟩ := (hsymbol (Kind.ofSymbol c)).2 (by
        rw [hpair]
        exact ⟨rfl, hillegal⟩)
      refine ⟨_, rfl, ?_⟩
      rw [List.take_zero, ← (ofSymbol_eq rfl hillegal).2]
      exact .symbol hmem hlongest

/-- Where no lexeme begins, the scanner finds neither a run nor a symbol. -/
theorem of_begins_nothing (hnone : ∀ lexeme, lexeme <+: c :: rest →
      ¬ IsWord lexeme ∧ ¬ IsNumber lexeme ∧ ¬ IsLiteral lexeme ∧ ¬ IsSymbol lexeme) :
    isWordStart c = false ∧ isDigit c = false ∧ Kind.ofSymbol c = .illegal ∧
      pair? c rest = none := by
  obtain ⟨hword, hnumber, -, hsymbol⟩ := hnone [c] (by simp)
  refine ⟨?_, ?_, ?_, ?_⟩
  · rw [← Bool.not_eq_true]
    exact fun h ↦ hword (isRun_singleton h)
  · rw [← Bool.not_eq_true]
    exact fun h ↦ hnumber (isRun_singleton h)
  · apply Decidable.byContradiction
    intro hillegal
    obtain ⟨hmem, hname⟩ := ofSymbol_eq rfl hillegal
    exact hsymbol ⟨_, hmem, hname.symm⟩
  · cases hpair : pair? c rest with
    | none => rfl
    | some pair =>
      obtain ⟨hhead, hof⟩ := pair?_eq_some_iff.1 hpair
      obtain ⟨hmem, hname⟩ := ofSymbolEquals?_eq hof
      exact absurd ⟨pair, hmem, hname.symm⟩ (hnone _ (pair_prefix_iff.2 hhead)).2.2.2

theorem piece_of_munches (hsolid : ¬ BeginsTrivia (c :: rest))
    (h : Munches (c :: rest) kind lexeme) :
    (piece c rest).1 = some kind ∧ lexeme = c :: rest.take (piece c rest).2 := by
  cases h with
  | word h hkind =>
    obtain ⟨hfirst, rfl⟩ := longestIn_run_iff.1 h
    rw [piece_word hsolid hfirst, take_takeWhile_length]
    exact ⟨congrArg some (wordKind_iff.1 hkind).symm, rfl⟩
  | number h =>
    obtain ⟨hfirst, rfl⟩ := longestIn_run_iff.1 h
    rw [piece_digit hsolid hfirst, take_takeWhile_length]
    exact ⟨rfl, rfl⟩
  | literal h =>
    obtain ⟨rfl, hclosed, rfl⟩ := longestIn_literal_iff.1 h
    rw [piece_quote, hclosed]
    exact ⟨rfl, rfl⟩
  | symbol hkind h =>
    obtain ⟨hword, hdigit, hquote⟩ := of_ofSymbol_ne_illegal (ofSymbol_of_longestIn hkind h)
    have hsymbol := longestIn_symbol_iff.1 ⟨hkind, h⟩
    rw [piece_other hsolid hword hdigit hquote]
    cases hpair : pair? c rest with
    | some pair =>
      rw [hpair] at hsymbol
      obtain rfl : kind = pair := hsymbol
      exact ⟨rfl, (cons_take_one hpair).symm⟩
    | none =>
      rw [hpair] at hsymbol
      rw [(ofSymbol_eq hsymbol.1.symm hsymbol.2).2, hsymbol.1]
      exact ⟨rfl, rfl⟩
  | @unclosed line more htext hline hmore hopen =>
    obtain ⟨rfl, rfl⟩ := List.cons.inj htext
    rw [piece_quote]
    rcases literalTail_cases (line ++ more) with
      ⟨-, body, after, hbody, hclosed⟩ | ⟨hopen', htake⟩
    · exact absurd ⟨body, hbody, rfl⟩ (hopen ('"' :: (body ++ ['"'])) (by simp [hclosed]))
    · rw [htake, takeWhile_line hline hmore, hopen']
      exact ⟨rfl, rfl⟩
  | stray htext hquote hnone =>
    obtain ⟨rfl, rfl⟩ := List.cons.inj htext
    obtain ⟨hword, hdigit, hsymbol, hpair⟩ := of_begins_nothing hnone
    rw [piece_other hsolid hword hdigit hquote, hpair, hsymbol]
    exact ⟨rfl, rfl⟩

end ScriptAnalysis.Lexer
