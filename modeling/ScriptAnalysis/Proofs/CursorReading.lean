import Mathlib.Data.List.Basic
import Mathlib.Order.Nat
import ScriptAnalysis.Program.Numbering
import ScriptAnalysis.Proofs.CursorSteps
import ScriptAnalysis.Proofs.Outcome.Program

/-!
# What a cursor reads

Each procedure comes to what reading from the front of the tokens left comes to. The counter that
runs along gives every node the number that it has when the outcome is numbered as a tree: what was
read before a node is complete are its parts, those of the left operand of a chain included, and a
block in braces takes a second number since the block inside it took one.
-/

namespace ScriptAnalysis.Cursor

open ScriptAnalysis.Parser (Parsed Result startsWith startsCall startsValue startsExpr)

variable {T : Tokens} {α α' β β' : Type} {bound bound' last : Nat} {ts mid rest : List Token}
  {t : Token} {number : α → β × Nat}

theorem follows_pure {value : α} {b : β} {hlt : rest.length < bound}
    (hnumber : number value = (b, last)) :
    Follows T (pure b) rest last number (.ok ⟨value, rest, hlt⟩) := by
  apply Follows.ok
  rw [hnumber]
  exact .pure b

/-- Numbers the arguments of a call, and then the call. -/
def numberCall (last : Nat) (found : Extent × String × List (Expr Extent)) :
    (Tag × String × List (Expr Tag)) × Nat :=
  let (args, last) := Expr.numberAll last found.2.2
  ((⟨last + 1, found.1⟩, found.2.1, args), last + 1)

mutual

theorem follows_binary (fuel level last : Nat) (ts : List Token) (h : ts <:+ T.body)
    (hfuel : 16 * ts.length + level + 3 < fuel) :
    Follows T (binary T.list fuel level) ts last (Expr.number last)
      (Parser.binary T.endMark level ts) := by
  match fuel, level, hfuel with
  | fuel + 1, 0, hfuel =>
    rw [binary, Parser.binary]
    exact follows_unary fuel _ ts h (by omega)
  | fuel + 1, level + 1, hfuel =>
    rw [binary, Parser.binary]
    apply moves_position.follows
    apply (follows_binary fuel level _ ts h (by omega)).bind
    rintro ⟨left, rest, hlt⟩ hrest
    exact follows_chain fuel level last ts left rest hlt hrest h (by omega)

/-- The operand on the left was numbered from `low` on, and the result is numbered from there. -/
theorem follows_chain (fuel level low : Nat) (start : List Token) (left : Expr Extent)
    (ts : List Token) (hlt : ts.length < start.length) (hts : ts <:+ start)
    (hstart : start <:+ T.body) (hfuel : 16 * ts.length + level < fuel) :
    Follows T (chain T.list fuel level (T.before start) (left.number low).1) ts (left.number low).2
      (Expr.number low) (Parser.chain T.endMark level start left ts hlt) := by
  have h : ts <:+ T.body := hts.trans hstart
  match fuel, hfuel with
  | fuel + 1, hfuel =>
    rw [chain]
    apply (moves_tok h).follows
    match ts, hlt, hts, h, hfuel with
    | [], hlt, hts, h, hfuel =>
      rw [List.headD_nil, T.endMark_kind, Parser.chain]
      exact follows_pure rfl
    | t :: more, hlt, hts, h, hfuel =>
      rw [List.length_cons] at hfuel
      rw [List.headD_cons, Parser.chain]
      cases Operator.ofKind? t.kind with
      | none => exact follows_pure rfl
      | some op =>
        by_cases hlevel : op.level = level + 1
        · simp only [if_pos hlevel]
          apply (moves_next h).follows
          apply (follows_binary fuel level _ more (Tokens.tail_suffix h) (by omega)).bind
          rintro ⟨right, rest, hlt'⟩ hrest
          have hrest' : rest <:+ start := (hrest.trans (List.suffix_cons t more)).trans hts
          apply (moves_tag hstart hrest').follows
          exact follows_chain fuel level low start (.binary _ op left right) rest _ hrest' hstart
            (by omega)
        · simp only [if_neg hlevel]
          exact follows_pure rfl

theorem follows_unary (fuel last : Nat) (ts : List Token) (h : ts <:+ T.body)
    (hfuel : 16 * ts.length + 2 < fuel) :
    Follows T (unary T.list fuel) ts last (Expr.number last) (Parser.unary T.endMark ts) := by
  match fuel, hfuel with
  | fuel + 1, hfuel =>
    rw [unary]
    apply (moves_tok h).follows
    match ts, h, hfuel with
    | [], h, hfuel =>
      rw [List.headD_nil, T.endMark_kind, if_neg (by decide), Parser.unary]
      exact follows_primary fuel _ [] h (by omega)
    | t :: more, h, hfuel =>
      rw [List.headD_cons, Parser.unary]
      split
      · rw [List.length_cons] at hfuel
        apply moves_position.follows
        apply (moves_next h).follows
        apply (follows_unary fuel _ more (Tokens.tail_suffix h) (by omega)).bind
        rintro ⟨operand, rest, hlt⟩ hrest
        exact follows_node h (hrest.trans (List.suffix_cons t more)) rfl
      · exact follows_primary fuel _ _ h (by omega)

theorem follows_primary (fuel last : Nat) (ts : List Token) (h : ts <:+ T.body)
    (hfuel : 16 * ts.length + 1 < fuel) :
    Follows T (primary T.list fuel) ts last (Expr.number last) (Parser.primary T.endMark ts) := by
  match fuel, hfuel with
  | fuel + 1, hfuel =>
    rw [primary]
    apply moves_position.follows
    apply (moves_tok h).follows
    match ts, h, hfuel with
    | [], h, hfuel =>
      rw [List.headD_nil, T.endMark_kind, Parser.primary]
      exact follows_unexpected h
    | t :: more, h, hfuel =>
      rw [List.headD_cons, Parser.primary]
      cases hkind : t.kind
      case int => exact follows_leaf h rfl
      case string => exact follows_leaf h rfl
      case trueWord => exact follows_leaf h rfl
      case falseWord => exact follows_leaf h rfl
      case ident =>
        apply (moves_peekKind h).follows
        by_cases hparen : (more.headD T.endMark).kind = .leftParen
        · rw [if_pos hparen, if_pos ((startsCall_iff T hkind).2 hparen)]
          apply (follows_call fuel _ (t :: more) h (by omega)).bind
          rintro ⟨⟨note, callee, args⟩, rest, hlt⟩ hrest
          exact follows_pure rfl
        · rw [if_neg hparen, if_neg (mt (startsCall_iff T hkind).1 hparen)]
          exact follows_leaf h rfl
      case leftParen =>
        rw [List.length_cons] at hfuel
        apply (moves_next h).follows
        apply (follows_binary fuel 3 _ more (Tokens.tail_suffix h) (by omega)).bind
        rintro ⟨inner, rest, hlt⟩ hrest
        have hrest' : rest <:+ t :: more := hrest.trans (List.suffix_cons t more)
        apply (follows_expect (by decide) (hrest'.trans h)).bind
        rintro ⟨close, rest', hlt'⟩ hclose
        exact follows_node h (hclose.trans hrest') rfl
      all_goals exact follows_unexpected h

theorem follows_call (fuel last : Nat) (ts : List Token) (h : ts <:+ T.body)
    (hfuel : 16 * ts.length < fuel) :
    Follows T (call T.list fuel) ts last (numberCall last) (Parser.call T.endMark ts) := by
  match fuel, hfuel with
  | fuel + 1, hfuel =>
    rw [call, Parser.call]
    apply moves_position.follows
    apply (follows_expect (by decide) h).bind
    rintro ⟨name, rest₁, hlt₁⟩ h₁
    apply (follows_expect (by decide) (h₁.trans h)).bind
    rintro ⟨opening, rest₂, hlt₂⟩ h₂
    have hrest₂ : rest₂ <:+ ts := h₂.trans h₁
    have hlt : rest₂.length < ts.length := hlt₂.trans hlt₁
    apply (follows_arguments fuel _ rest₂ (hrest₂.trans h) (by omega)).bind
    rintro ⟨args, rest₃, hlt₃⟩ h₃
    exact follows_node h (h₃.trans hrest₂) rfl

theorem follows_arguments (fuel last : Nat) (ts : List Token) (h : ts <:+ T.body)
    (hfuel : 16 * ts.length + 8 < fuel) :
    Follows T (arguments T.list fuel) ts last (Expr.numberAll last)
      (Parser.arguments T.endMark ts) := by
  match fuel, hfuel with
  | fuel + 1, hfuel =>
    rw [arguments]
    apply Follows.accept (by decide) h
    · intro hstarts
      cases ts with
      | nil => cases hstarts
      | cons t more =>
        rw [Parser.arguments, if_pos (of_decide_eq_true hstarts)]
        exact follows_pure rfl
    · intro hstarts
      have hlist := follows_argumentList fuel last ts h (by omega)
      cases ts with
      | nil =>
        rw [Parser.arguments]
        exact hlist
      | cons t more =>
        rw [Parser.arguments, if_neg (of_decide_eq_false hstarts)]
        exact hlist

theorem follows_argumentList (fuel last : Nat) (ts : List Token) (h : ts <:+ T.body)
    (hfuel : 16 * ts.length + 7 < fuel) :
    Follows T (argumentList T.list fuel) ts last (Expr.numberAll last)
      (Parser.argumentList T.endMark ts) := by
  match fuel, hfuel with
  | fuel + 1, hfuel =>
    rw [argumentList, Parser.argumentList]
    apply (follows_binary fuel 3 _ ts h (by omega)).bind
    rintro ⟨first, rest₁, hlt₁⟩ h₁
    have hrest₁ : rest₁ <:+ T.body := h₁.trans h
    apply Follows.accept (by decide) hrest₁
    · intro hstarts
      have hlt : rest₁.tail.length < ts.length := (List.tail_suffix rest₁).length_le.trans_lt hlt₁
      simp only [hstarts, if_true]
      apply (follows_argumentList fuel _ rest₁.tail (Tokens.tail_suffix hrest₁) (by omega)).bind
      rintro ⟨others, rest₂, hlt₂⟩ h₂
      exact follows_pure rfl
    · intro hstarts
      simp only [hstarts, Bool.false_eq_true, if_false]
      apply (follows_expect (by decide) hrest₁).bind
      rintro ⟨close, rest₂, hlt₂⟩ h₂
      exact follows_pure rfl

end

theorem follows_expression {fuel : Nat} (h : ts <:+ T.body) (hfuel : 16 * ts.length + 6 < fuel) :
    Follows T (expression T.list fuel) ts last (Expr.number last)
      (Parser.expression T.endMark ts) :=
  follows_binary fuel 3 _ ts h hfuel

theorem startsValue_eq (T : Tokens) (word : Token) (ts : List Token) :
    startsValue word ts =
      (startsExpr (ts.headD T.endMark).kind && decide ((ts.headD T.endMark).line = word.line)) := by
  cases ts with
  | nil =>
    rw [List.headD_nil, T.endMark_kind]
    rfl
  | cons t more => rfl

/-- Goes on after a block without braces, which took a number after its statements. -/
theorem Follows.plainBlock {stop : Kind} {fuel : Nat} {k : Block Tag → Procedure β}
    {r : Result (List (Stmt Extent)) bound'}
    {f : Parsed (List (Stmt Extent)) bound' → Result α bound} (h : ts <:+ T.body)
    (hstmts : Follows T (statements T.list stop fuel) ts last (Stmt.numberAll last) r)
    (hk : ∀ p : Parsed (List (Stmt Extent)) bound', p.rest <:+ ts →
      let block := Block.numberPlain last (.mk (.between T.endMark ts p.rest) p.value)
      Follows T (k block.1) p.rest block.2 number (f p)) :
    Follows T (Cursor.plainBlock T.list stop (fuel + 1) >>= k) ts last number (r >>= f) := by
  rw [Cursor.plainBlock]
  simp only [bind_assoc, pure_bind]
  apply moves_position.follows
  apply hstmts.bind
  intro p hrest
  apply (moves_tag h hrest).follows
  exact hk p hrest

mutual

theorem follows_statement (fuel last : Nat) (ts : List Token) (h : ts <:+ T.body)
    (hfuel : 16 * ts.length + 1 < fuel) :
    Follows T (statement T.list fuel) ts last (Stmt.number last)
      (Parser.statement T.endMark ts) := by
  match fuel, hfuel with
  | fuel + 1, hfuel =>
    rw [statement]
    apply moves_position.follows
    apply (moves_tok h).follows
    match ts, h, hfuel with
    | [], h, hfuel =>
      rw [List.headD_nil, T.endMark_kind, Parser.statement]
      exact follows_unexpected h
    | t :: more, h, hfuel =>
      have hmore : more <:+ T.body := Tokens.tail_suffix h
      have htail : more <:+ t :: more := List.suffix_cons t more
      have hfuel' : 16 * more.length + 16 < fuel := by
        rw [List.length_cons] at hfuel
        omega
      rw [List.headD_cons, Parser.statement]
      cases hkind : t.kind
      case ident =>
        apply (moves_peekKind h).follows
        by_cases hparen : (more.headD T.endMark).kind = .leftParen
        · rw [if_pos hparen, if_pos ((startsCall_iff T hkind).2 hparen)]
          apply (follows_call fuel _ (t :: more) h (by omega)).bind
          rintro ⟨⟨note, callee, args⟩, rest, hlt⟩ hrest
          exact follows_node h hrest rfl
        · rw [if_neg hparen, if_neg (mt (startsCall_iff T hkind).1 hparen)]
          apply (moves_next h).follows
          apply (follows_expect (by decide) hmore).bind
          rintro ⟨sign, rest₁, hlt₁⟩ h₁
          have hrest₁ : rest₁ <:+ T.body := h₁.trans hmore
          apply (follows_expression hrest₁ (by omega)).bind
          rintro ⟨value, rest₂, hlt₂⟩ h₂
          exact follows_node h ((h₂.trans h₁).trans htail) rfl
      case whileWord =>
        apply (moves_next h).follows
        apply (follows_expression hmore (by omega)).bind
        rintro ⟨condition, rest₁, hlt₁⟩ h₁
        apply (follows_braceBlock fuel _ rest₁ (h₁.trans hmore) (by omega)).bind
        rintro ⟨body, rest₂, hlt₂⟩ h₂
        exact follows_node h ((h₂.trans h₁).trans htail) rfl
      case ifWord =>
        apply (moves_next h).follows
        apply (follows_expression hmore (by omega)).bind
        rintro ⟨condition, rest₁, hlt₁⟩ h₁
        apply (follows_braceBlock fuel _ rest₁ (h₁.trans hmore) (by omega)).bind
        rintro ⟨whenTrue, rest₂, hlt₂⟩ h₂
        have hrest₂ : rest₂ <:+ t :: more := (h₂.trans h₁).trans htail
        apply Follows.accept (by decide) (hrest₂.trans h)
        · intro hstarts
          have hlt : rest₂.tail.length < more.length :=
            (List.tail_suffix rest₂).length_le.trans_lt (hlt₂.trans hlt₁)
          simp only [hstarts, if_true]
          apply (follows_braceBlock fuel _ rest₂.tail (Tokens.tail_suffix (hrest₂.trans h))
            (by omega)).bind
          rintro ⟨whenFalse, rest₃, hlt₃⟩ h₃
          exact follows_node h ((h₃.trans (List.tail_suffix rest₂)).trans hrest₂) rfl
        · intro hstarts
          simp only [hstarts, Bool.false_eq_true, if_false]
          exact follows_node h hrest₂ rfl
      case printWord =>
        apply (moves_next h).follows
        apply (follows_expression hmore (by omega)).bind
        rintro ⟨value, rest, hlt⟩ hrest
        exact follows_node h (hrest.trans htail) rfl
      case returnWord =>
        apply (moves_next h).follows
        apply (moves_tok hmore).follows
        rw [startsValue_eq T]
        split
        · apply (follows_expression hmore (by omega)).bind
          rintro ⟨value, rest, hlt⟩ hrest
          exact follows_node h (hrest.trans htail) rfl
        · exact follows_node h htail rfl
      all_goals exact follows_unexpected h

theorem follows_statements (stop : Kind) (fuel last : Nat) (ts : List Token) (h : ts <:+ T.body)
    (hfuel : 16 * ts.length + 2 < fuel) :
    Follows T (statements T.list stop fuel) ts last (Stmt.numberAll last)
      (Parser.statements T.endMark stop ts) := by
  match fuel, hfuel with
  | fuel + 1, hfuel =>
    rw [statements]
    apply (moves_tok h).follows
    match ts, h, hfuel with
    | [], h, hfuel =>
      rw [List.headD_nil, if_pos (.inr T.endMark_kind), Parser.statements]
      exact follows_pure rfl
    | t :: more, h, hfuel =>
      rw [List.headD_cons, Parser.statements]
      by_cases hstop : t.kind = stop
      · rw [if_pos (.inl hstop), if_pos hstop]
        exact follows_pure rfl
      rw [if_neg (not_or.2 ⟨hstop, Tokens.kind_ne_eof h⟩), if_neg hstop]
      by_cases hvar : t.kind = .varWord
      · rw [if_pos hvar, if_pos hvar]
        exact .error rfl (Nat.le_refl _) Tokens.before_lt
      rw [if_neg hvar, if_neg hvar]
      apply (follows_statement fuel _ (t :: more) h (by omega)).bind
      rintro ⟨first, rest₁, hlt₁⟩ h₁
      apply (follows_statements stop fuel _ rest₁ (h₁.trans h) (by omega)).bind
      rintro ⟨others, rest₂, hlt₂⟩ h₂
      exact follows_pure rfl

theorem follows_braceBlock (fuel last : Nat) (ts : List Token) (h : ts <:+ T.body)
    (hfuel : 16 * ts.length < fuel) :
    Follows T (braceBlock T.list fuel) ts last (Block.number last)
      (Parser.braceBlock T.endMark ts) := by
  match fuel, hfuel with
  | 1, hfuel =>
    obtain rfl : ts = [] := List.length_eq_zero_iff.1 (by omega)
    rw [braceBlock, Parser.braceBlock]
    exact moves_position.follows ((follows_expect (by decide) h).bind nofun)
  | fuel + 2, hfuel =>
    rw [braceBlock, Parser.braceBlock]
    apply moves_position.follows
    apply (follows_expect (by decide) h).bind
    rintro ⟨opening, rest₁, hlt₁⟩ h₁
    have hrest₁ : rest₁ <:+ T.body := h₁.trans h
    apply Follows.plainBlock hrest₁ (follows_statements .rightBrace fuel _ rest₁ hrest₁ (by omega))
    rintro ⟨stmts, rest₂, hlt₂⟩ h₂
    have hrest₂ : rest₂ <:+ ts := h₂.trans h₁
    apply (follows_expect (by decide) (hrest₂.trans h)).bind
    rintro ⟨close, rest₃, hlt₃⟩ h₃
    exact follows_node h (h₃.trans hrest₂) rfl

end

theorem follows_varDecl {fuel : Nat} (h : ts <:+ T.body) (hfuel : 16 * ts.length < fuel) :
    Follows T (varDecl T.list fuel) ts last (VarDecl.number last)
      (Parser.varDecl T.endMark ts) := by
  rw [varDecl, Parser.varDecl]
  apply moves_position.follows
  apply (follows_expect (by decide) h).bind
  rintro ⟨word, rest₁, hlt₁⟩ h₁
  apply (follows_expect (by decide) (h₁.trans h)).bind
  rintro ⟨name, rest₂, hlt₂⟩ h₂
  have hrest₂ : rest₂ <:+ ts := h₂.trans h₁
  apply (follows_expect (by decide) (hrest₂.trans h)).bind
  rintro ⟨colon, rest₃, hlt₃⟩ h₃
  have hrest₃ : rest₃ <:+ ts := h₃.trans hrest₂
  apply (follows_expect (by decide) (hrest₃.trans h)).bind
  rintro ⟨type, rest₄, hlt₄⟩ h₄
  have hrest₄ : rest₄ <:+ ts := h₄.trans hrest₃
  have hlt : rest₄.length < ts.length := hlt₄.trans (hlt₃.trans (hlt₂.trans hlt₁))
  apply Follows.accept (by decide) (hrest₄.trans h)
  · intro hstarts
    have htail := (List.tail_suffix rest₄).length_le
    simp only [hstarts, if_true]
    apply (follows_expression (Tokens.tail_suffix (hrest₄.trans h)) (by omega)).bind
    rintro ⟨init, rest₅, hlt₅⟩ h₅
    exact follows_node h ((h₅.trans (List.tail_suffix rest₄)).trans hrest₄) rfl
  · intro hstarts
    simp only [hstarts, Bool.false_eq_true, if_false]
    exact follows_node h hrest₄ rfl

theorem follows_varDecls (fuel last : Nat) (ts : List Token) (h : ts <:+ T.body)
    (hfuel : 16 * ts.length + 1 < fuel) :
    Follows T (varDecls T.list fuel) ts last (VarDecl.numberAll last)
      (Parser.varDecls T.endMark ts) := by
  match fuel, hfuel with
  | fuel + 1, hfuel =>
    rw [varDecls, Parser.varDecls, startsWith_eq (T := T) (by decide)]
    apply (moves_tok h).follows
    by_cases hword : (ts.headD T.endMark).kind = .varWord
    · rw [if_pos hword, if_pos (decide_eq_true hword)]
      apply (follows_varDecl h (by omega)).bind
      rintro ⟨first, rest₁, hlt₁⟩ h₁
      apply (follows_varDecls fuel _ rest₁ (h₁.trans h) (by omega)).bind
      rintro ⟨others, rest₂, hlt₂⟩ h₂
      exact follows_pure rfl
    · rw [if_neg hword, if_neg (by simpa using hword)]
      exact follows_pure rfl

/-- Numbers the parts of a body. -/
def numberParts (last : Nat) (parts : VarBlock Extent × Block Extent) :
    (VarBlock Tag × Block Tag) × Nat :=
  let (vars, last) := parts.1.number last
  let (block, last) := parts.2.numberPlain last
  ((vars, block), last)

theorem follows_bodyParts (stop : Kind) {fuel : Nat} (h : ts <:+ T.body)
    (hfuel : 16 * ts.length + 3 < fuel) :
    Follows T (bodyParts T.list stop fuel) ts last (numberParts last)
      (Parser.bodyParts T.endMark stop ts) := by
  obtain ⟨fuel, rfl⟩ := Nat.exists_eq_add_of_lt hfuel
  rw [bodyParts, Parser.bodyParts]
  apply moves_position.follows
  apply (follows_varDecls _ _ ts h (by omega)).bind
  rintro ⟨decls, rest₁, hlt₁⟩ h₁
  have hrest₁ : rest₁ <:+ T.body := h₁.trans h
  apply (moves_tag h h₁).follows
  apply Follows.plainBlock hrest₁ (follows_statements stop _ _ rest₁ hrest₁ (by omega))
  rintro ⟨stmts, rest₂, hlt₂⟩ h₂
  exact follows_pure rfl

theorem follows_body {fuel : Nat} (h : ts <:+ T.body) (hfuel : 16 * ts.length < fuel) :
    Follows T (body T.list fuel) ts last (Body.number last) (Parser.body T.endMark ts) := by
  rw [body, Parser.body]
  apply moves_position.follows
  apply (follows_expect (by decide) h).bind
  rintro ⟨opening, rest₁, hlt₁⟩ h₁
  have hrest₁ : rest₁ <:+ T.body := h₁.trans h
  apply (follows_bodyParts .rightBrace hrest₁ (by omega)).bind
  rintro ⟨⟨vars, block⟩, rest₂, hlt₂⟩ h₂
  have hrest₂ : rest₂ <:+ ts := h₂.trans h₁
  apply (follows_expect (by decide) (hrest₂.trans h)).bind
  rintro ⟨close, rest₃, hlt₃⟩ h₃
  exact follows_node h (h₃.trans hrest₂) rfl

/-- Numbers a parameter. -/
def numberParam (last : Nat) (p : Param Extent) : Param Tag × Nat :=
  (⟨⟨last + 1, p.note⟩, p.name, p.type⟩, last + 1)

theorem follows_param (h : ts <:+ T.body) :
    Follows T (param T.list) ts last (numberParam last) (Parser.param T.endMark ts) := by
  rw [param, Parser.param]
  apply moves_position.follows
  apply (follows_expect (by decide) h).bind
  rintro ⟨name, rest₁, hlt₁⟩ h₁
  apply (follows_expect (by decide) (h₁.trans h)).bind
  rintro ⟨colon, rest₂, hlt₂⟩ h₂
  have hrest₂ : rest₂ <:+ ts := h₂.trans h₁
  apply (follows_expect (by decide) (hrest₂.trans h)).bind
  rintro ⟨type, rest₃, hlt₃⟩ h₃
  exact follows_node h (h₃.trans hrest₂) rfl

theorem follows_paramList (fuel last : Nat) (ts : List Token) (h : ts <:+ T.body)
    (hfuel : 16 * ts.length < fuel) :
    Follows T (paramList T.list fuel) ts last (Param.numberAll last)
      (Parser.paramList T.endMark ts) := by
  match fuel, hfuel with
  | fuel + 1, hfuel =>
    rw [paramList, Parser.paramList]
    apply (follows_param h).bind
    rintro ⟨first, rest₁, hlt₁⟩ h₁
    have hrest₁ : rest₁ <:+ T.body := h₁.trans h
    apply Follows.accept (by decide) hrest₁
    · intro hstarts
      have hlt : rest₁.tail.length < ts.length := (List.tail_suffix rest₁).length_le.trans_lt hlt₁
      simp only [hstarts, if_true]
      apply (follows_paramList fuel _ rest₁.tail (Tokens.tail_suffix hrest₁) (by omega)).bind
      rintro ⟨others, rest₂, hlt₂⟩ h₂
      exact follows_pure rfl
    · intro hstarts
      simp only [hstarts, Bool.false_eq_true, if_false]
      apply (follows_expect (by decide) hrest₁).bind
      rintro ⟨close, rest₂, hlt₂⟩ h₂
      exact follows_pure rfl

theorem follows_params {fuel : Nat} (h : ts <:+ T.body) (hfuel : 16 * ts.length < fuel) :
    Follows T (params T.list fuel) ts last (Param.numberAll last) (Parser.params T.endMark ts) := by
  rw [params]
  apply Follows.accept (by decide) h
  · intro hstarts
    cases ts with
    | nil => cases hstarts
    | cons t more =>
      rw [Parser.params, if_pos (of_decide_eq_true hstarts)]
      exact follows_pure rfl
  · intro hstarts
    have hlist := follows_paramList fuel last ts h hfuel
    cases ts with
    | nil => exact hlist
    | cons t more =>
      rw [Parser.params, if_neg (of_decide_eq_false hstarts)]
      exact hlist

theorem follows_returnType (h : ts <:+ T.body) :
    Follows T (returnType T.list) ts last (·, last) (Parser.returnType T.endMark ts) := by
  rw [returnType]
  apply Follows.accept (by decide) h
  · intro hstarts
    cases ts with
    | nil => cases hstarts
    | cons t more =>
      rw [Parser.returnType, if_pos (of_decide_eq_true hstarts)]
      apply (follows_expect (by decide) (Tokens.tail_suffix h)).bind
      rintro ⟨type, rest, hlt⟩ hrest
      exact follows_pure rfl
  · intro hstarts
    cases ts with
    | nil => exact follows_pure rfl
    | cons t more =>
      rw [Parser.returnType, if_neg (of_decide_eq_false hstarts)]
      exact follows_pure rfl

theorem follows_funcDef {fuel : Nat} (h : ts <:+ T.body) (hfuel : 16 * ts.length < fuel) :
    Follows T (funcDef T.list fuel) ts last (FuncDef.number last)
      (Parser.funcDef T.endMark ts) := by
  rw [funcDef, Parser.funcDef]
  apply moves_position.follows
  apply (follows_expect (by decide) h).bind
  rintro ⟨word, rest₁, hlt₁⟩ h₁
  apply (follows_expect (by decide) (h₁.trans h)).bind
  rintro ⟨name, rest₂, hlt₂⟩ h₂
  have hrest₂ : rest₂ <:+ ts := h₂.trans h₁
  apply (follows_expect (by decide) (hrest₂.trans h)).bind
  rintro ⟨opening, rest₃, hlt₃⟩ h₃
  have hrest₃ : rest₃ <:+ ts := h₃.trans hrest₂
  have hle₃ := hrest₃.length_le
  apply (follows_params (hrest₃.trans h) (by omega)).bind
  rintro ⟨params, rest₄, hlt₄⟩ h₄
  have hrest₄ : rest₄ <:+ ts := h₄.trans hrest₃
  apply (follows_returnType (hrest₄.trans h)).bind
  rintro ⟨returns, rest₅, hlt₅⟩ h₅
  have hrest₅ : rest₅ <:+ ts := h₅.trans hrest₄
  have hle₅ := hrest₅.length_le
  apply (follows_body (hrest₅.trans h) (by omega)).bind
  rintro ⟨body, rest₆, hlt₆⟩ h₆
  exact follows_node h (h₆.trans hrest₅) rfl

theorem follows_funcDefs (fuel last : Nat) (ts : List Token) (h : ts <:+ T.body)
    (hfuel : 16 * ts.length + 1 < fuel) :
    Follows T (funcDefs T.list fuel) ts last (FuncDef.numberAll last)
      (Parser.funcDefs T.endMark ts) := by
  match fuel, hfuel with
  | fuel + 1, hfuel =>
    rw [funcDefs, Parser.funcDefs, startsWith_eq (T := T) (by decide)]
    apply (moves_tok h).follows
    by_cases hword : (ts.headD T.endMark).kind = .funcWord
    · rw [if_pos hword, if_pos (decide_eq_true hword)]
      apply (follows_funcDef h (by omega)).bind
      rintro ⟨first, rest₁, hlt₁⟩ h₁
      apply (follows_funcDefs fuel _ rest₁ (h₁.trans h) (by omega)).bind
      rintro ⟨others, rest₂, hlt₂⟩ h₂
      exact follows_pure rfl
    · rw [if_neg hword, if_neg (by simpa using hword)]
      exact follows_pure rfl

/-- A procedure comes to an outcome after numbering it by `number`, at a position in the list that
is not before the first. If it succeeds, the last number taken is where numbering it ends. -/
def Finishes (T : Tokens) (m : Procedure β) (ts : List Token) (last : Nat) (number : α → β × Nat)
    (r : Except SyntaxError α) : Prop :=
  ∃ s : State, m ⟨T.before ts, last⟩ = some (r.map fun a ↦ (number a).1, s) ∧
    T.before ts ≤ s.pos ∧ s.pos < T.list.length ∧ ∀ a, r = .ok a → s.last = (number a).2

theorem finishes_pure {value : α} {b : β} (hnumber : number value = (b, last)) :
    Finishes T (pure b) ts last number (.ok value) := by
  refine ⟨⟨T.before ts, last⟩, ?_, Nat.le_refl _, Tokens.before_lt, ?_⟩
  · rw [Except.map, hnumber]
    rfl
  · intro a ha
    cases ha
    rw [hnumber]

theorem Follows.finishes {m : Procedure β} {r : Result α bound} (h : Follows T m ts last number r) :
    Finishes T m ts last number (r.map Parsed.value) := by
  cases h with
  | @ok p hm =>
    refine ⟨_, hm.run, Tokens.before_le hm.suffix, Tokens.before_lt, ?_⟩
    intro a ha
    cases ha
    rfl
  | error hrun hle hlt => exact ⟨_, hrun, hle, hlt, nofun⟩

theorem Moves.finishes {m : Procedure β'} {k : β' → Procedure β} {b : β' × Nat}
    {r : Except SyntaxError α} (hm : Moves T m ts last b mid)
    (hk : Finishes T (k b.1) mid b.2 number r) : Finishes T (m >>= k) ts last number r := by
  obtain ⟨s, hrun, hle, hlt, hlast⟩ := hk
  exact ⟨s, (bind_eq_of_run hm.run).trans hrun, (Tokens.before_le hm.suffix).trans hle, hlt, hlast⟩

theorem Follows.bind_finishes {m : Procedure β'} {k : β' → Procedure β} {r : Result α' bound}
    {number' : α' → β' × Nat} {f : Parsed α' bound → Except SyntaxError α}
    (hm : Follows T m ts last number' r)
    (hk : ∀ p : Parsed α' bound, r = .ok p → p.rest <:+ ts →
      Finishes T (k (number' p.value).1) p.rest (number' p.value).2 number (f p)) :
    Finishes T (m >>= k) ts last number (r >>= f) := by
  cases hm with
  | ok hm => exact hm.finishes (hk _ rfl hm.suffix)
  | error hrun hle hlt => exact ⟨_, bind_eq_of_error hrun, hle, hlt, nofun⟩

/-- Only the end of the source ends the statements of the main part. -/
theorem rest_bodyParts_eq_nil {p : Parsed (VarBlock Extent × Block Extent) (ts.length + 1)}
    (hread : Parser.bodyParts T.endMark .eof ts = .ok p) (h : p.rest <:+ T.body) : p.rest = [] := by
  have hparts := Parser.bodyParts_outcome T.endMark_kind (.inr rfl) ts
  rw [hread] at hparts
  obtain ⟨used, -, -, hrest⟩ := hparts
  cases hcases : p.rest with
  | nil => rfl
  | cons t more =>
    rw [hcases] at h hrest
    exact absurd (hrest t rfl) (Tokens.kind_ne_eof h)

/-- Numbers a program, whose own number is the last. -/
def numberScript (s : Script Extent) : Script Tag × Nat := (s.number, s.number.note.id)

theorem finishes_script {fuel : Nat} (hfuel : 16 * T.list.length ≤ fuel) :
    Finishes T (script T.list fuel) T.body 0 numberScript (Parser.script T.endMark T.body) := by
  have hlength := T.length_list
  rw [script, Parser.script]
  apply moves_position.finishes
  apply (follows_funcDefs fuel _ T.body (List.suffix_refl _) (by omega)).bind_finishes
  rintro ⟨funcs, rest₁, hlt₁⟩ - h₁
  have hrest₁ : rest₁ <:+ T.body := h₁
  apply moves_position.finishes
  have hle₁ := hrest₁.length_le
  apply (follows_bodyParts .eof hrest₁ (by omega)).bind_finishes
  rintro ⟨⟨vars, block⟩, rest₂, hlt₂⟩ hread h₂
  obtain rfl : rest₂ = [] := rest_bodyParts_eq_nil hread (h₂.trans h₁)
  apply (moves_tag h₁ h₂).finishes
  apply moves_expect_end.finishes
  apply (moves_tag (List.suffix_refl _) List.nil_suffix).finishes
  exact finishes_pure rfl

theorem finishes_wholeExpression {fuel : Nat} (hfuel : 16 * T.list.length ≤ fuel) :
    Finishes T (wholeExpression T.list fuel) T.body 0 (Expr.number 0)
      (Parser.wholeExpression T.endMark T.body) := by
  have hlength := T.length_list
  rw [wholeExpression, Parser.wholeExpression]
  apply (follows_expression (List.suffix_refl _) (by omega)).bind_finishes
  rintro ⟨e, rest, hlt⟩ - hrest
  apply (moves_tok hrest).finishes
  cases rest with
  | nil =>
    rw [List.headD_nil, if_pos T.endMark_kind]
    exact finishes_pure rfl
  | cons t more =>
    rw [List.headD_cons, if_neg (Tokens.kind_ne_eof hrest)]
    have hfail : Follows T (unexpected T.list .endOfExpression) (t :: more) (e.number 0).2
        (Expr.number 0)
        (Parser.fail T.endMark .endOfExpression (t :: more) : Result (Expr Extent) 0) :=
      follows_unexpected hrest
    exact hfail.finishes

end ScriptAnalysis.Cursor
