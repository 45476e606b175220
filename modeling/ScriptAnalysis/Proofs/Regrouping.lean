import ScriptAnalysis.Program.Outline
import ScriptAnalysis.Proofs.Joining
import ScriptAnalysis.Proofs.Rereading

/-!
# Outlines of expressions are read again

The outline of an expression is written with blanks around operators and with parentheses around
every operation of two operands. Its lexemes are found again in it, and they can be derived in one
way only, so reading it gives the expression with those parentheses added. They can be taken away
again, which shows that no two expressions have the same outline.
-/

namespace ScriptAnalysis

/-- An expression without its notes. -/
def Expr.shape {α : Type} (e : Expr α) : Expr Unit := e.map fun _ ↦ ()

theorem Expr.shape_map {α β : Type} (f : α → β) (e : Expr α) : (e.map f).shape = e.shape :=
  Expr.map_map f _ e

mutual

/-- An expression with parentheses of its own around every operation of two operands. -/
def Expr.grouped : Expr Unit → Expr Unit
  | .int _ digits => .int () digits
  | .string _ lexeme => .string () lexeme
  | .bool _ value => .bool () value
  | .ident _ name => .ident () name
  | .negate _ op operand => .negate () op operand.grouped
  | .parens _ inner => .parens () inner.grouped
  | .binary _ op left right => .parens () (.binary () op left.grouped right.grouped)
  | .call _ callee args => .call () callee (Expr.groupedAll args)

def Expr.groupedAll : List (Expr Unit) → List (Expr Unit)
  | [] => []
  | first :: others => first.grouped :: Expr.groupedAll others

end

mutual

/-- An expression without the parentheses right around an operation of two operands. -/
def Expr.ungrouped : Expr Unit → Expr Unit
  | .int _ digits => .int () digits
  | .string _ lexeme => .string () lexeme
  | .bool _ value => .bool () value
  | .ident _ name => .ident () name
  | .negate _ op operand => .negate () op operand.ungrouped
  | .parens _ (.binary _ op left right) => .binary () op left.ungrouped right.ungrouped
  | .parens _ inner => .parens () inner.ungrouped
  | .binary _ op left right => .binary () op left.ungrouped right.ungrouped
  | .call _ callee args => .call () callee (Expr.ungroupedAll args)

def Expr.ungroupedAll : List (Expr Unit) → List (Expr Unit)
  | [] => []
  | first :: others => first.ungrouped :: Expr.ungroupedAll others

end

/-- Added parentheses that stand around others are not taken for them. -/
theorem Expr.ungrouped_parens_grouped (e : Expr Unit) :
    (Expr.parens () e.grouped).ungrouped = .parens () e.grouped.ungrouped := by
  cases e <;> simp only [Expr.grouped, Expr.ungrouped]

mutual

theorem Expr.ungrouped_grouped (e : Expr Unit) : e.grouped.ungrouped = e := by
  match e with
  | .int _ _ | .string _ _ | .bool _ _ | .ident _ _ => rfl
  | .negate _ op operand => rw [Expr.grouped, Expr.ungrouped, operand.ungrouped_grouped]
  | .parens _ inner =>
    rw [Expr.grouped, inner.ungrouped_parens_grouped, inner.ungrouped_grouped]
  | .binary _ op left right =>
    rw [Expr.grouped, Expr.ungrouped, left.ungrouped_grouped, right.ungrouped_grouped]
  | .call _ callee args => rw [Expr.grouped, Expr.ungrouped, Expr.ungroupedAll_groupedAll args]

theorem Expr.ungroupedAll_groupedAll (es : List (Expr Unit)) :
    Expr.ungroupedAll (Expr.groupedAll es) = es := by
  match es with
  | [] => rfl
  | e :: es =>
    rw [Expr.groupedAll, Expr.ungroupedAll, e.ungrouped_grouped, Expr.ungroupedAll_groupedAll es]

end

mutual

theorem Expr.outline_map {α β : Type} (f : α → β) (e : Expr α) : (e.map f).outline = e.outline := by
  match e with
  | .int _ _ | .string _ _ | .bool _ _ | .ident _ _ => rfl
  | .negate _ op operand => rw [Expr.map, Expr.outline, Expr.outline, operand.outline_map]
  | .parens _ inner => rw [Expr.map, Expr.outline, Expr.outline, inner.outline_map]
  | .binary _ op left right =>
    rw [Expr.map, Expr.outline, Expr.outline, left.outline_map, right.outline_map]
  | .call _ callee args => rw [Expr.map, Expr.outline, Expr.outline, Expr.outlines_mapAll f args]

theorem Expr.outlines_mapAll {α β : Type} (f : α → β) (es : List (Expr α)) :
    Expr.outlines (Expr.mapAll f es) = Expr.outlines es := by
  match es with
  | [] => rfl
  | e :: es =>
    rw [Expr.mapAll, Expr.outlines, Expr.outlines, e.outline_map, Expr.outlines_mapAll f es]

end

namespace Lexer

/-- A symbol or a reserved word is spelled as its kind is called. -/
theorem Lexed.lexeme_eq {t : Token} (h : Lexed t)
    (hkind : t.kind ∈ symbols ∨ t.kind ∈ reservedWords) : t.lexeme = t.kind.name := by
  obtain ⟨text, hmunches⟩ := h.munches
  rw [← String.toList_inj]
  generalize t.kind = kind at *
  generalize t.lexeme.toList = lexeme at *
  cases hmunches with
  | word _ hword =>
    cases hword with
    | reserved _ => rfl
    | type _ | ident _ _ => exact absurd hkind (by decide)
  | symbol _ _ => rfl
  | _ => exact absurd hkind (by decide)

/-- The token of a symbol. -/
def symbol (kind : Kind) : Token := ⟨kind, kind.name, 1, 1⟩

theorem lexed_leftParen : Lexed (symbol .leftParen) := ⟨'(', [], 0, by decide, rfl⟩

theorem lexed_rightParen : Lexed (symbol .rightParen) := ⟨')', [], 0, by decide, rfl⟩

/-- Whether a text has some tokens in front of those of a rest. -/
def Yields (text : List Char) (ts : List Token) (more : List Char) : Prop :=
  ∀ here, (scan here text).map Token.bare = ts.map Token.bare ++ (scan here more).map Token.bare

namespace Yields

variable {text mid more : List Char} {ts us : List Token} {t : Token}

theorem append (h : Yields text ts mid) (h' : Yields mid us more) :
    Yields text (ts ++ us) more := by
  intro here
  rw [h here, h' here, List.map_append, List.append_assoc]

theorem blank (h : Yields text ts more) : Yields (' ' :: text) ts more := by
  intro here
  rw [scan_blank (by decide), ← h here]
  exact map_bare_scan _ _ _

/-- A lexeme is found where it ends. -/
theorem lexeme (ht : Lexed t) (hlegal : t.kind ≠ .illegal) (hstops : Stops t.kind more) :
    Yields (t.lexeme.toList ++ more) [t] more := by
  intro here
  rw [scan_lexeme ht hlegal hstops, List.map_cons, map_bare_scan _ here]
  rfl

end Yields

end Lexer

/-! ## Printed expressions -/

namespace Grammar

open Lexer (Lexed Stops Yields isWordPart symbol symbols)

/-- Whether a text has some tokens, whatever follows that cannot go on with a word, and can itself
follow a symbol. -/
structure Prints (ts : List Token) (text : List Char) : Prop where
  opens : ∃ c cs, text = c :: cs ∧ c ≠ '=' ∧ c ≠ '/'
  yields : ∀ more, (∀ d ∈ more.head?, isWordPart d = false) → Yields (text ++ more) ts more

namespace Prints

variable {ts us : List Token} {t l r : Token} {text text' : List Char}

theorem stops (h : Prints ts text) {kind : Kind} (hkind : kind ∈ symbols) (more : List Char) :
    Stops kind (text ++ more) := by
  obtain ⟨c, cs, rfl, hc⟩ := h.opens
  rintro _ ⟨⟩
  rw [if_pos hkind]
  exact .inr hc

theorem lexeme (ht : Lexed t) (hends : endsExpr t.kind = true) : Prints [t] t.lexeme.toList := by
  have hall : ∀ kind, endsExpr kind = true → kind ≠ .illegal ∧
      kind ∉ [.assign, .equal, .slash] ∧ (kind ∈ symbols → kind = .rightParen) := by
    intro kind hkind
    cases kind <;> first | decide | cases hkind
  obtain ⟨hlegal, hfirst, hsymbol⟩ := hall _ hends
  constructor
  · obtain ⟨c, rest, count, hpiece, hlexeme⟩ := ht
    exact ⟨c, _, hlexeme, (Lexer.first_of_piece hpiece).1 hfirst⟩
  · intro more hmore
    refine .lexeme ht hlegal fun d hd ↦ ?_
    split
    · next hkind => exact .inl (hsymbol hkind)
    · exact hmore d hd

theorem blank (h : Prints ts text) : Prints ts (' ' :: text) :=
  ⟨⟨' ', text, rfl, by decide⟩, fun more hmore ↦ (h.yields more hmore).blank⟩

theorem append (h : Prints ts text) (h' : Prints us text')
    (hhead : ∀ d ∈ text'.head?, isWordPart d = false) : Prints (ts ++ us) (text ++ text') := by
  constructor
  · obtain ⟨c, cs, rfl, hc⟩ := h.opens
    exact ⟨c, cs ++ text', rfl, hc⟩
  · intro more hmore
    have hnext : ∀ d ∈ (text' ++ more).head?, isWordPart d = false := by
      obtain ⟨c, cs, rfl, -⟩ := h'.opens
      exact hhead
    rw [List.append_assoc]
    exact (h.yields _ hnext).append (h'.yields more hmore)

/-- A symbol is found before what can follow it. -/
theorem yields_cons (h : Prints us text) (ht : Lexed t) (hkind : t.kind ∈ symbols)
    {more : List Char} (hmore : ∀ d ∈ more.head?, isWordPart d = false) :
    Yields (t.lexeme.toList ++ text ++ more) (t :: us) more := by
  have hlegal : t.kind ≠ .illegal := fun hillegal ↦ absurd (hillegal ▸ hkind) (by decide)
  rw [List.append_assoc]
  exact (Yields.lexeme ht hlegal (h.stops hkind more)).append (h.yields more hmore)

theorem cons (h : Prints us text) (ht : Lexed t) (hkind : t.kind ∈ symbols)
    (hfirst : t.kind ∉ [.assign, .equal, .slash]) : Prints (t :: us) (t.lexeme.toList ++ text) := by
  refine ⟨?_, fun more hmore ↦ h.yields_cons ht hkind hmore⟩
  obtain ⟨c, rest, count, hpiece, hlexeme⟩ := ht
  rw [hlexeme]
  exact ⟨c, _, rfl, (Lexer.first_of_piece hpiece).1 hfirst⟩

theorem operation (h : Prints ts text) (h' : Prints us text') (ht : Lexed t)
    (hkind : t.kind ∈ symbols) :
    Prints (ts ++ t :: us) (text ++ ' ' :: (t.lexeme.toList ++ ' ' :: text')) := by
  have hright : Prints (t :: us) (' ' :: (t.lexeme.toList ++ ' ' :: text')) :=
    ⟨⟨' ', _, rfl, by decide⟩, fun more hmore ↦ (h'.blank.yields_cons ht hkind hmore).blank⟩
  refine h.append hright ?_
  rintro _ ⟨⟩
  decide

theorem rightParen (hr : Lexed r) (hkind : r.kind = .rightParen) : Prints [r] [')'] := by
  have hlexeme := hr.lexeme_eq (.inl (hkind ▸ by decide))
  have hprints := lexeme hr (hkind ▸ rfl)
  rw [hlexeme, hkind] at hprints
  exact hprints

theorem leftParen (h : Prints us text) (hl : Lexed l) (hkind : l.kind = .leftParen) :
    Prints (l :: us) ('(' :: text) := by
  have hlexeme := hl.lexeme_eq (.inl (hkind ▸ by decide))
  have hprints := h.cons hl (hkind ▸ by decide) (hkind ▸ by decide)
  rw [hlexeme, hkind] at hprints
  exact hprints

theorem close (h : Prints ts text) (hr : Lexed r) (hkind : r.kind = .rightParen) :
    Prints (ts ++ [r]) (text ++ [')']) := by
  refine h.append (rightParen hr hkind) ?_
  rintro _ ⟨⟩
  decide

theorem comma (h : Prints ts text) (h' : Prints us text') (ht : Lexed t) (hkind : t.kind = .comma) :
    Prints (ts ++ t :: us) (text ++ ',' :: ' ' :: text') := by
  have hlexeme := ht.lexeme_eq (.inl (hkind ▸ by decide))
  have hprints := h'.blank.cons ht (hkind ▸ by decide) (hkind ▸ by decide)
  rw [hlexeme, hkind] at hprints
  refine h.append hprints ?_
  rintro _ ⟨⟩
  decide

theorem call (h : Prints us text) (ht : Lexed t) (hname : t.kind = .ident) (hl : Lexed l)
    (hkind : l.kind = .leftParen) : Prints (t :: l :: us) (t.lexeme.toList ++ '(' :: text) := by
  refine (lexeme ht (hname ▸ rfl)).append (h.leftParen hl hkind) ?_
  rintro _ ⟨⟩
  decide

end Prints

/-- Whether the outline of an expression has tokens that give the expression again, with parentheses
around its operations of two operands. -/
def Regroups (e : Expr Extent) : Prop :=
  ∃ us e', Unary us e' ∧ e'.shape = e.shape.grouped ∧ Prints us e.outline.toList

theorem toList_outline_binary {note : Extent} {op : Operator} {left right : Expr Extent} :
    (Expr.binary note op left right).outline.toList =
      '(' :: (left.outline.toList ++ ' ' :: (op.text.toList ++ ' ' :: right.outline.toList) ++
        [')']) := by
  simp [Expr.outline]

theorem text_of_ofKind? {kind : Kind} {op : Operator} (h : Operator.ofKind? kind = some op) :
    kind.name = op.text := by
  cases kind <;> first | (cases h; rfl) | cases h

theorem ArgumentList.outlines_ne_nil {ts : List Token} {args : List (Expr Extent)}
    (h : ArgumentList ts args) : Expr.outlines args ≠ [] := by
  cases h <;> simp [Expr.outlines]

mutual

theorem Expression.regroups {level : Nat} {ts : List Token} {e : Expr Extent} :
    Expression level ts e → (∀ t ∈ ts, Lexed t) → Regroups e
  | .unary h, hts => h.regroups hts
  | .operand h, hts => h.regroups hts
  | @Expression.operation level ts us t op left right hl hop hlevel hr, hts => by
    rw [List.forall_mem_append, List.forall_mem_cons] at hts
    obtain ⟨ls, left', hleft, hleftShape, hleftPrints⟩ := hl.regroups hts.1
    obtain ⟨rs, right', hright, hrightShape, hrightPrints⟩ := hr.regroups hts.2.2
    have hsymbol := operator_mem_symbols hop
    have hlexeme : t.lexeme = op.text :=
      (hts.2.1.lexeme_eq (.inl hsymbol)).trans (text_of_ofKind? hop)
    have hlevels : level + 1 ≤ 3 := by
      rw [← hlevel]
      cases op <;> decide
    have hbinary := Expression.operation ((Expression.unary hleft).lift (Nat.zero_le _)) hop hlevel
      ((Expression.unary hright).lift (Nat.zero_le _))
    refine ⟨_, _, .primary (.parens (l := symbol .leftParen) (r := symbol .rightParen) rfl
      (hbinary.lift hlevels) rfl), ?_, ?_⟩
    · simp only [Expr.shape, Expr.map, Expr.grouped] at hleftShape hrightShape ⊢
      rw [hleftShape, hrightShape]
    · rw [toList_outline_binary, ← hlexeme]
      exact ((hleftPrints.operation hrightPrints hts.2.1 hsymbol).close Lexer.lexed_rightParen
        rfl).leftParen Lexer.lexed_leftParen rfl

theorem Unary.regroups {ts : List Token} {e : Expr Extent} :
    Unary ts e → (∀ t ∈ ts, Lexed t) → Regroups e
  | .negate ht h, hts => by
    rw [List.forall_mem_cons] at hts
    obtain ⟨us, e', hunary, hshape, hprints⟩ := h.regroups hts.2
    refine ⟨_, _, .negate ht hunary, ?_, ?_⟩
    · simp only [Expr.shape, Expr.map, Expr.grouped] at hshape ⊢
      rw [hshape]
    · rw [Expr.outline, String.toList_append]
      apply hprints.cons hts.1
      · rcases ht with ht | ht <;> rw [ht] <;> decide
      · rcases ht with ht | ht <;> rw [ht] <;> decide
  | .primary h, hts => h.regroups hts

theorem Primary.regroups {ts : List Token} {e : Expr Extent} :
    Primary ts e → (∀ t ∈ ts, Lexed t) → Regroups e
  | .int ht, hts => by
    refine ⟨_, _, .primary (.int ht), rfl, ?_⟩
    exact .lexeme (hts _ List.mem_cons_self) (ht ▸ rfl)
  | .string ht, hts => by
    refine ⟨_, _, .primary (.string ht), rfl, ?_⟩
    exact .lexeme (hts _ List.mem_cons_self) (ht ▸ rfl)
  | .true ht, hts => by
    have hprints := Prints.lexeme (hts _ List.mem_cons_self) (ht ▸ rfl)
    rw [(hts _ List.mem_cons_self).lexeme_eq (.inr (ht ▸ by decide)), ht] at hprints
    exact ⟨_, _, .primary (.true ht), rfl, hprints⟩
  | .false ht, hts => by
    have hprints := Prints.lexeme (hts _ List.mem_cons_self) (ht ▸ rfl)
    rw [(hts _ List.mem_cons_self).lexeme_eq (.inr (ht ▸ by decide)), ht] at hprints
    exact ⟨_, _, .primary (.false ht), rfl, hprints⟩
  | .ident ht, hts => by
    refine ⟨_, _, .primary (.ident ht), rfl, ?_⟩
    exact .lexeme (hts _ List.mem_cons_self) (ht ▸ rfl)
  | .call h, hts => h.regroups hts
  | .parens hl h hr, hts => by
    rw [List.forall_mem_cons, List.forall_mem_append, List.forall_mem_singleton] at hts
    obtain ⟨us, e', hunary, hshape, hprints⟩ := h.regroups hts.2.1
    refine ⟨_, _, .primary (.parens hl hunary.raise hr), ?_, ?_⟩
    · simp only [Expr.shape, Expr.map, Expr.grouped] at hshape ⊢
      rw [hshape]
    · have hparens := (hprints.close hts.2.2 hr).leftParen hts.1 hl
      simpa [Expr.outline] using hparens

theorem Call.regroups {ts : List Token} {note : Extent} {callee : String}
    {args : List (Expr Extent)} :
    Call ts note callee args → (∀ t ∈ ts, Lexed t) → Regroups (.call note callee args)
  | .mk hn hl h, hts => by
    rw [List.forall_mem_cons, List.forall_mem_cons] at hts
    obtain ⟨us, args', hargs, hshapes, hprints⟩ := h.regroups hts.2.2
    refine ⟨_, _, .primary (.call (.mk hn hl hargs)), ?_, ?_⟩
    · simp only [Expr.shape, Expr.map, Expr.grouped] at hshapes ⊢
      rw [hshapes]
    · have hcall := hprints.call hts.1 hn hts.2.1 hl
      simpa [Expr.outline] using hcall

theorem Arguments.regroups {ts : List Token} {args : List (Expr Extent)} :
    Arguments ts args → (∀ t ∈ ts, Lexed t) → ∃ us args', Arguments us args' ∧
      Expr.mapAll (fun _ ↦ ()) args' = Expr.groupedAll (Expr.mapAll (fun _ ↦ ()) args) ∧
      Prints us ((", ".intercalate (Expr.outlines args)).toList ++ [')'])
  | .none hr, hts => ⟨_, _, .none hr, rfl, .rightParen (hts _ List.mem_cons_self) hr⟩
  | .some h, hts => by
    obtain ⟨us, args', hargs, hshapes, hprints⟩ := h.regroups hts
    exact ⟨us, args', .some hargs, hshapes, hprints⟩

theorem ArgumentList.regroups {ts : List Token} {args : List (Expr Extent)} :
    ArgumentList ts args → (∀ t ∈ ts, Lexed t) → ∃ us args', ArgumentList us args' ∧
      Expr.mapAll (fun _ ↦ ()) args' = Expr.groupedAll (Expr.mapAll (fun _ ↦ ()) args) ∧
      Prints us ((", ".intercalate (Expr.outlines args)).toList ++ [')'])
  | .last h hr, hts => by
    rw [List.forall_mem_append, List.forall_mem_singleton] at hts
    obtain ⟨us, e', hunary, hshape, hprints⟩ := h.regroups hts.1
    refine ⟨_, _, .last hunary.raise hr, ?_, ?_⟩
    · exact congrArg (· :: []) hshape
    · rw [Expr.outlines, Expr.outlines, String.intercalate_singleton]
      exact hprints.close hts.2 hr
  | .more h hc hs, hts => by
    rw [List.forall_mem_append, List.forall_mem_cons] at hts
    obtain ⟨us, e', hunary, hshape, hprints⟩ := h.regroups hts.1
    obtain ⟨vs, args', hargs, hshapes, hothers⟩ := hs.regroups hts.2.2
    refine ⟨_, _, .more hunary.raise hc hargs, ?_, ?_⟩
    · exact congrArg₂ List.cons hshape hshapes
    · have hall := hprints.comma hothers hts.2.1 hc
      rw [Expr.outlines, String.intercalate_cons_of_ne_nil hs.outlines_ne_nil]
      simpa using hall

end

/-- The outline of an expression is read as the expression with parentheses around its operations of
two operands. -/
theorem Expression.exists_parse_outline {ts : List Token} {e : Expr Extent} (h : Expression 3 ts e)
    (hts : ∀ t ∈ ts, Lexed t) :
    ∃ e', Expr.parse e.outline = .ok e' ∧ e'.shape = e.shape.grouped := by
  obtain ⟨us, tree, hunary, hshape, hprints⟩ := h.regroups hts
  have hbare : us.map Token.bare = (Lexer.tokens e.outline).map Token.bare := by
    have hyields := hprints.yields [] (by simp) (1, 1)
    rw [List.append_nil, Lexer.scan, List.map_nil, List.append_nil] at hyields
    exact hyields.symm
  obtain ⟨ps, hfst, hsnd, hps⟩ := Matched.exists_pairs hbare
  obtain ⟨tree', htree, htext⟩ := hunary.raise.placed hps hfst
  rw [hsnd] at htree
  have hwhole : Standalone (Lexer.allTokens e.outline) tree' := .mk htree (Lexer.endMark_kind _)
  refine ⟨_, Expr.parse_eq_ok_iff.2 ⟨tree', hwhole, rfl⟩, ?_⟩
  calc
    Expr.shape (tree'.number 0).1 = ((tree'.number 0).1.map Tag.text).shape :=
      (Expr.shape_map _ _).symm
    _ = (tree.map Extent.text).shape := by rw [Expr.map_text_number, htext]
    _ = tree.shape := Expr.shape_map _ _
    _ = e.shape.grouped := hshape

end Grammar

/-! ## Spellings -/

mutual

/-- The lexemes of an expression with nothing between them. -/
def Expr.spelling : Expr Unit → String
  | .int _ digits => digits
  | .string _ lexeme => lexeme
  | .bool _ value => if value then "true" else "false"
  | .ident _ name => name
  | .negate _ op operand => op ++ operand.spelling
  | .parens _ inner => "(" ++ inner.spelling ++ ")"
  | .binary _ op left right => left.spelling ++ op.text ++ right.spelling
  | .call _ callee args => callee ++ "(" ++ ",".intercalate (Expr.spellings args) ++ ")"

def Expr.spellings : List (Expr Unit) → List String
  | [] => []
  | first :: others => first.spelling :: Expr.spellings others

end

namespace Grammar

open Lexer (Lexed glued)

theorem glued_cons (t : Token) (ts : List Token) :
    glued (t :: ts) = t.lexeme.toList ++ glued ts := List.flatMap_cons

theorem glued_append (ts us : List Token) : glued (ts ++ us) = glued ts ++ glued us :=
  List.flatMap_append

theorem ArgumentList.spellings_ne_nil {ts : List Token} {args : List (Expr Extent)}
    (h : ArgumentList ts args) : Expr.spellings (Expr.mapAll (fun _ ↦ ()) args) ≠ [] := by
  cases h <;> simp [Expr.mapAll, Expr.spellings]

mutual

theorem Expression.glued_eq {level : Nat} {ts : List Token} {e : Expr Extent} :
    Expression level ts e → (∀ t ∈ ts, Lexed t) → glued ts = e.shape.spelling.toList
  | .unary h, hts => h.glued_eq hts
  | .operand h, hts => h.glued_eq hts
  | @Expression.operation _ _ _ t op _ _ hl hop _ hr, hts => by
    rw [List.forall_mem_append, List.forall_mem_cons] at hts
    have hlexeme : t.lexeme = op.text :=
      (hts.2.1.lexeme_eq (.inl (operator_mem_symbols hop))).trans (text_of_ofKind? hop)
    rw [glued_append, glued_cons, hl.glued_eq hts.1, hr.glued_eq hts.2.2, hlexeme]
    simp [Expr.shape, Expr.map, Expr.spelling]

theorem Unary.glued_eq {ts : List Token} {e : Expr Extent} :
    Unary ts e → (∀ t ∈ ts, Lexed t) → glued ts = e.shape.spelling.toList
  | .negate ht h, hts => by
    rw [List.forall_mem_cons] at hts
    rw [glued_cons, h.glued_eq hts.2]
    simp [Expr.shape, Expr.map, Expr.spelling]
  | .primary h, hts => h.glued_eq hts

theorem Primary.glued_eq {ts : List Token} {e : Expr Extent} :
    Primary ts e → (∀ t ∈ ts, Lexed t) → glued ts = e.shape.spelling.toList
  | .int _, _ | .string _, _ | .ident _, _ => List.flatMap_singleton _ _
  | .true ht, hts | .false ht, hts => by
    rw [glued_cons, (hts _ List.mem_cons_self).lexeme_eq (.inr (ht ▸ by decide)), ht]
    simp [Expr.shape, Expr.map, Expr.spelling, Kind.name, glued]
  | .call h, hts => h.glued_eq hts
  | .parens hl h hr, hts => by
    rw [List.forall_mem_cons, List.forall_mem_append, List.forall_mem_singleton] at hts
    rw [glued_cons, glued_append, h.glued_eq hts.2.1, glued_cons,
      hts.1.lexeme_eq (.inl (hl ▸ by decide)), hts.2.2.lexeme_eq (.inl (hr ▸ by decide)), hl, hr]
    simp [Expr.shape, Expr.map, Expr.spelling, Kind.name, glued]

theorem Call.glued_eq {ts : List Token} {note : Extent} {callee : String}
    {args : List (Expr Extent)} :
    Call ts note callee args → (∀ t ∈ ts, Lexed t) →
      glued ts = (Expr.call note callee args).shape.spelling.toList
  | .mk _ hl h, hts => by
    rw [List.forall_mem_cons, List.forall_mem_cons] at hts
    rw [glued_cons, glued_cons, h.glued_eq hts.2.2, hts.2.1.lexeme_eq (.inl (hl ▸ by decide)), hl]
    simp [Expr.shape, Expr.map, Expr.spelling, Kind.name]

theorem Arguments.glued_eq {ts : List Token} {args : List (Expr Extent)} :
    Arguments ts args → (∀ t ∈ ts, Lexed t) → glued ts =
      (",".intercalate (Expr.spellings (Expr.mapAll (fun _ ↦ ()) args))).toList ++ [')']
  | .none hr, hts => by
    rw [glued_cons, (hts _ List.mem_cons_self).lexeme_eq (.inl (hr ▸ by decide)), hr]
    rfl
  | .some h, hts => h.glued_eq hts

theorem ArgumentList.glued_eq {ts : List Token} {args : List (Expr Extent)} :
    ArgumentList ts args → (∀ t ∈ ts, Lexed t) → glued ts =
      (",".intercalate (Expr.spellings (Expr.mapAll (fun _ ↦ ()) args))).toList ++ [')']
  | .last h hr, hts => by
    rw [List.forall_mem_append, List.forall_mem_singleton] at hts
    rw [glued_append, h.glued_eq hts.1, glued_cons, hts.2.lexeme_eq (.inl (hr ▸ by decide)), hr]
    simp [Expr.shape, Expr.mapAll, Expr.spellings, Kind.name, glued]
  | .more h hc hs, hts => by
    rw [List.forall_mem_append, List.forall_mem_cons] at hts
    rw [glued_append, h.glued_eq hts.1, glued_cons, hs.glued_eq hts.2.2,
      hts.2.1.lexeme_eq (.inl (hc ▸ by decide)), hc, Expr.mapAll, Expr.spellings,
      String.intercalate_cons_of_ne_nil hs.spellings_ne_nil]
    simp [Kind.name, Expr.shape]

end

/-- The shape of an expression tells the texts in it. -/
theorem Expression.map_text_eq_of_shape_eq {ts us : List Token} {e e' : Expr Extent}
    (h : Expression 3 ts e) (h' : Expression 3 us e') (hts : ∀ t ∈ ts, Lexed t)
    (hus : ∀ t ∈ us, Lexed t) (hshape : e.shape = e'.shape) :
    e.map Extent.text = e'.map Extent.text := by
  apply h.map_text_eq h' hts hus
  rw [← String.toList_inj, h.toList_text, h'.toList_text, h.glued_eq hts, h'.glued_eq hus, hshape]

end Grammar

/-- The outline of an expression that was read is a text of the same language. Reading it gives the
expression with parentheses of its own around every operation of two operands and with nothing else
changed. So expressions with the same outline are the same but for their numbers and places, whether
they stand in one source or in two. -/
theorem outline_read_again {source : String} {root : Node Tag} (h : root.ReadFrom source)
    {e : Expr Tag} (he : .expr e ∈ root.all) :
    (∃ e', Expr.parse e.outline = .ok e' ∧ e'.shape = e.shape.grouped) ∧
    ∀ {source' : String} {root' : Node Tag}, root'.ReadFrom source' →
      ∀ {e' : Expr Tag}, .expr e' ∈ root'.all → e.outline = e'.outline →
        e.map Tag.text = e'.map Tag.text := by
  have hread {source : String} {root : Node Tag} (h : root.ReadFrom source) {e : Expr Tag}
      (he : .expr e ∈ root.all) : ∃ ts, (∀ t ∈ ts, Lexer.Lexed t) ∧
        Grammar.Expression 3 ts (e.map Tag.extent) ∧
        ∃ tree, Expr.parse e.outline = .ok tree ∧ tree.shape = e.shape.grouped := by
    obtain ⟨ts, hts, hexpression⟩ := h.exists_expression he
    obtain ⟨tree, hparse, hshape⟩ := hexpression.exists_parse_outline hts
    rw [Expr.outline_map] at hparse
    rw [Expr.shape_map] at hshape
    exact ⟨ts, hts, hexpression, tree, hparse, hshape⟩
  obtain ⟨ts, hts, hexpression, tree, hparse, hshape⟩ := hread h he
  refine ⟨⟨tree, hparse, hshape⟩, ?_⟩
  intro source' root' h' e' he' houtline
  obtain ⟨us, hus, hexpression', tree', hparse', hshape'⟩ := hread h' he'
  have htree : tree = tree' := by
    rw [houtline, hparse'] at hparse
    exact (Except.ok.inj hparse).symm
  have hsame : e.shape = e'.shape := by
    rw [← e.shape.ungrouped_grouped, ← hshape, htree, hshape', Expr.ungrouped_grouped]
  rw [← Expr.map_text_extent, ← Expr.map_text_extent]
  apply hexpression.map_text_eq_of_shape_eq hexpression' hts hus
  rw [Expr.shape_map, Expr.shape_map, hsame]

/-- The product is read again with parentheses around it, and so is the sum that it stands in. -/
theorem outline_read_again_sum :
    ∃ e e', Expr.parse "1+2*-f(x)" = .ok e ∧ e.outline = "(1 + (2 * -f(x)))" ∧
      Expr.parse "(1 + (2 * -f(x)))" = .ok e' ∧
      e'.shape = .parens () (.binary () .plus (.int () "1")
        (.parens () (.binary () .times (.int () "2")
          (.negate () "-" (.call () "f" [.ident () "x"]))))) := by
  obtain ⟨e, he, houtline, hgrouped⟩ : ∃ e, Expr.parse "1+2*-f(x)" = .ok e ∧
      e.outline = "(1 + (2 * -f(x)))" ∧
      e.shape.grouped = .parens () (.binary () .plus (.int () "1")
        (.parens () (.binary () .times (.int () "2")
          (.negate () "-" (.call () "f" [.ident () "x"]))))) := by
    refine ⟨?_, ?parse, ?_, ?_⟩
    case parse =>
      cbv
      rfl
    · cbv
    · cbv
  obtain ⟨⟨e', hparse, hshape⟩, -⟩ := outline_read_again (.expr he) (Node.mem_all_self (.expr e))
  exact ⟨e, e', he, houtline, houtline ▸ hparse, hshape.trans hgrouped⟩

end ScriptAnalysis
