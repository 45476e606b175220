import ScriptAnalysis.Proofs.CursorReading

/-!
# The cursor stays in the list

Each procedure comes to what reading from the front of the tokens left comes to. Since reading ends
and leaves fewer tokens, the procedures end, never leave the list and never go back.
-/

namespace ScriptAnalysis.Cursor

open ScriptAnalysis.Parser (Parsed Result)

variable {T : Tokens} {α β β' : Type} {last : Nat} {ts : List Token} {number : α → β × Nat}

/-- From every position in the list, and whatever numbers were taken, a procedure comes to an
outcome, and the position it leaves is in the list and not before the first. -/
def Stays (toks : List Token) (m : Procedure β) : Prop :=
  ∀ s : State, s.pos < toks.length → ∃ outcome s',
    m s = some (outcome, s') ∧ s.pos ≤ s'.pos ∧ s'.pos < toks.length

/-- A procedure stays in the list, and if it succeeds it has gone on by a token or more. -/
def Advances (toks : List Token) (m : Procedure β) : Prop :=
  Stays toks m ∧
    ∀ s s' : State, s.pos < toks.length → ∀ value, m s = some (.ok value, s') → s.pos < s'.pos

theorem Stays.of_before {m : Procedure β}
    (h : ∀ ts, ts <:+ T.body → ∀ last, ∃ outcome s', m ⟨T.before ts, last⟩ = some (outcome, s') ∧
      T.before ts ≤ s'.pos ∧ s'.pos < T.list.length) : Stays T.list m := by
  intro s hpos
  obtain ⟨ts, hts, hbefore⟩ := Tokens.exists_before hpos
  have hstate : s = ⟨T.before ts, s.last⟩ := by rw [hbefore]
  rw [hstate]
  exact h ts hts s.last

theorem Stays.of_moves {m : Procedure β}
    (h : ∀ ts, ts <:+ T.body → ∀ last, ∃ found rest, Moves T m ts last found rest) :
    Stays T.list m := by
  apply Stays.of_before
  intro ts hts last
  obtain ⟨found, rest, hm⟩ := h ts hts last
  exact ⟨_, _, hm.run, Tokens.before_le hm.suffix, Tokens.before_lt⟩

theorem Stays.of_follows {bound : List Token → Nat} {m : Procedure β} {number : Nat → α → β × Nat}
    {p : (ts : List Token) → Result α (bound ts)}
    (h : ∀ ts, ts <:+ T.body → ∀ last, Follows T m ts last (number last) (p ts)) :
    Stays T.list m := by
  apply Stays.of_before
  intro ts hts last
  obtain ⟨s', hrun, hle, hlt, -⟩ := (h ts hts last).finishes
  exact ⟨_, s', hrun, hle, hlt⟩

theorem Follows.before_lt_of_ok {m : Procedure β} {r : Result α ts.length} {value : β} {s : State}
    (h : Follows T m ts last number r) (hts : ts <:+ T.body)
    (hrun : m ⟨T.before ts, last⟩ = some (.ok value, s)) : T.before ts < s.pos := by
  cases h with
  | @ok p hm =>
    have hlength := hts.length_le
    have hshorter := p.shorter
    obtain ⟨-, rfl⟩ : (number p.value).1 = value ∧ ⟨T.before p.rest, (number p.value).2⟩ = s := by
      simpa using hm.run.symm.trans hrun
    change T.body.length - ts.length < T.body.length - p.rest.length
    omega
  | error herror =>
    rw [herror] at hrun
    cases hrun

theorem Advances.of_follows {m : Procedure β} {number : Nat → α → β × Nat}
    {p : (ts : List Token) → Result α ts.length}
    (h : ∀ ts, ts <:+ T.body → ∀ last, Follows T m ts last (number last) (p ts)) :
    Advances T.list m := by
  refine ⟨Stays.of_follows h, ?_⟩
  intro s s' hpos value hrun
  obtain ⟨ts, hts, hbefore⟩ := Tokens.exists_before hpos
  have hstate : s = ⟨T.before ts, s.last⟩ := by rw [hbefore]
  rw [hstate] at hrun
  rw [← hbefore]
  exact (h ts hts s.last).before_lt_of_ok hts hrun

theorem Stays.pure (toks : List Token) (value : β) : Stays toks (pure value) :=
  fun s hpos ↦ ⟨_, s, rfl, Nat.le_refl _, hpos⟩

theorem Stays.bind {toks : List Token} {m : Procedure β} {k : β → Procedure β'} (hm : Stays toks m)
    (hk : ∀ b, Stays toks (k b)) : Stays toks (m >>= k) := by
  intro s hpos
  obtain ⟨outcome, mid, hrun, hle, hlt⟩ := hm s hpos
  cases outcome with
  | error e => exact ⟨.error e, mid, bind_eq_of_error hrun, hle, hlt⟩
  | ok b =>
    obtain ⟨outcome, s', hrun', hle', hlt'⟩ := hk b mid hlt
    exact ⟨outcome, s', (bind_eq_of_run hrun).trans hrun', hle.trans hle', hlt'⟩

theorem stays_tok : Stays T.list (tok T.list) :=
  Stays.of_moves fun _ hts _ ↦ ⟨_, _, moves_tok hts⟩

theorem stays_next : Stays T.list (next T.list) := by
  apply Stays.of_moves
  intro ts hts last
  cases ts with
  | nil => exact ⟨_, _, moves_next_end⟩
  | cons t more => exact ⟨_, _, moves_next hts⟩

theorem stays_unexpected (expected : Expected) :
    Stays T.list (unexpected T.list expected : Procedure β) :=
  stays_tok.bind fun _ s hpos ↦ ⟨_, s, rfl, Nat.le_refl _, hpos⟩

theorem stays_accept (kind : Kind) : Stays T.list (accept T.list kind) := by
  apply stays_tok.bind
  intro t
  split
  · exact stays_next.bind fun _ ↦ .pure _ _
  · exact .pure _ _

theorem stays_expect (kind : Kind) : Stays T.list (expect T.list kind) := by
  apply stays_tok.bind
  intro t
  split
  · exact stays_next
  · exact stays_unexpected _

theorem stays_peekKind (ahead : Nat) : Stays T.list (peekKind T.list ahead) := by
  apply Stays.of_moves
  intro ts hts last
  by_cases hover : T.before ts + ahead ≥ T.list.length
  · have hmove : Moves T (peekKind T.list ahead) ts last (.eof, last) ts := by
      apply moves_position.bind
      rw [if_pos hover]
      exact .pure _
    exact ⟨_, _, hmove⟩
  · have hin : T.before ts + ahead < T.list.length := Nat.lt_of_not_le hover
    have hmove : Moves T (peekKind T.list ahead) ts last
        (T.list[T.before ts + ahead].kind, last) ts := by
      apply moves_position.bind
      rw [if_neg hover]
      exact (moves_tokenAt (List.getElem?_eq_getElem hin)).bind (.pure _)
    exact ⟨_, _, hmove⟩

theorem stays_extent (start : Nat) : Stays T.list (extent T.list start) := by
  apply Stays.of_moves
  intro ts hts last
  by_cases hempty : start ≥ T.before ts
  · have hmove : Moves T (extent T.list start) ts last (.ofTokens (ts.headD T.endMark) [], last)
        ts := by
      apply moves_position.bind
      rw [if_pos hempty]
      exact (moves_tok hts).bind (.pure _)
    exact ⟨_, _, hmove⟩
  · obtain ⟨us, hus, rfl⟩ := Tokens.exists_before ((Nat.lt_of_not_le hempty).trans T.before_lt)
    have hlength : ts.length ≤ us.length := by
      rw [Tokens.before, Tokens.before] at hempty
      omega
    obtain ⟨used, rfl⟩ := List.suffix_of_suffix_length_le hts hus hlength
    exact ⟨_, _, moves_extent hus⟩

theorem stays_tag (start : Nat) : Stays T.list (tag T.list start) := by
  have hnumber : Stays T.list nextNumber := Stays.of_moves fun _ _ _ ↦ ⟨_, _, moves_nextNumber⟩
  exact hnumber.bind fun _ ↦ (stays_extent start).bind fun _ ↦ .pure _ _

/-- With this much fuel no procedure leaves the list or goes back, each comes to an outcome, and
what reads a construct goes on by a token or more. Expressions have operators of three levels. -/
structure InRange (toks : List Token) (fuel : Nat) : Prop where
  tok : Stays toks (tok toks)
  peekKind (ahead : Nat) : Stays toks (peekKind toks ahead)
  next : Stays toks (next toks)
  accept (kind : Kind) : Stays toks (accept toks kind)
  expect (kind : Kind) : Stays toks (expect toks kind)
  unexpected (α : Type) (expected : Expected) : Stays toks (unexpected toks expected : Procedure α)
  extent (start : Nat) : Stays toks (extent toks start)
  tag (start : Nat) : Stays toks (tag toks start)
  binary {level : Nat} (h : level ≤ 3) : Advances toks (binary toks fuel level)
  unary : Advances toks (unary toks fuel)
  primary : Advances toks (primary toks fuel)
  call : Advances toks (call toks fuel)
  arguments : Advances toks (arguments toks fuel)
  argumentList : Advances toks (argumentList toks fuel)
  statement : Advances toks (statement toks fuel)
  statements (stop : Kind) : Stays toks (statements toks stop fuel)
  plainBlock (stop : Kind) : Stays toks (plainBlock toks stop fuel)
  braceBlock : Advances toks (braceBlock toks fuel)
  varDecl : Advances toks (varDecl toks fuel)
  varDecls : Stays toks (varDecls toks fuel)
  bodyParts (stop : Kind) : Stays toks (bodyParts toks stop fuel)
  body : Advances toks (body toks fuel)
  param : Advances toks (param toks)
  paramList : Advances toks (paramList toks fuel)
  params : Advances toks (params toks fuel)
  returnType : Stays toks (returnType toks)
  funcDef : Advances toks (funcDef toks fuel)
  funcDefs : Stays toks (funcDefs toks fuel)

theorem Tokens.lt_fuel {fuel : Nat} (n : Nat) (hfuel : 16 * T.list.length ≤ fuel)
    (hts : ts <:+ T.body) (hn : n ≤ 8) : 16 * ts.length + n < fuel := by
  have hlength := hts.length_le
  rw [length_list] at hfuel
  omega

/-- The statements and the number of a block without braces. -/
theorem stays_plainBlock (stop : Kind) {fuel : Nat} (hfuel : 16 * T.list.length ≤ fuel) :
    Stays T.list (plainBlock T.list stop fuel) := by
  cases fuel with
  | zero => simp [Tokens.length_list] at hfuel
  | succ fuel =>
    have hstmts : Stays T.list (statements T.list stop fuel) := .of_follows fun ts hts last ↦ by
      have hlt := Tokens.lt_fuel 3 hfuel hts (by decide)
      exact follows_statements stop fuel last ts hts (by omega)
    have hposition : Stays T.list position := .of_moves fun _ _ _ ↦ ⟨_, _, moves_position⟩
    rw [plainBlock]
    exact hposition.bind fun start ↦
      hstmts.bind fun _ ↦ (stays_tag start).bind fun _ ↦ .pure _ _

theorem inRange_list {fuel : Nat} (hfuel : 16 * T.list.length ≤ fuel) : InRange T.list fuel where
  tok := stays_tok
  peekKind := stays_peekKind
  next := stays_next
  accept := stays_accept
  expect := stays_expect
  unexpected _ := stays_unexpected
  extent := stays_extent
  tag := stays_tag
  binary h := .of_follows fun ts hts last ↦
    follows_binary fuel _ last ts hts
      (Tokens.lt_fuel _ hfuel hts (Nat.add_le_add_right h 3).step.step)
  unary := .of_follows fun ts hts last ↦
    follows_unary fuel last ts hts (Tokens.lt_fuel _ hfuel hts (by decide))
  primary := .of_follows fun ts hts last ↦
    follows_primary fuel last ts hts (Tokens.lt_fuel _ hfuel hts (by decide))
  call := .of_follows fun ts hts last ↦
    follows_call fuel last ts hts (Tokens.lt_fuel 0 hfuel hts (by decide))
  arguments := .of_follows fun ts hts last ↦
    follows_arguments fuel last ts hts (Tokens.lt_fuel _ hfuel hts (by decide))
  argumentList := .of_follows fun ts hts last ↦
    follows_argumentList fuel last ts hts (Tokens.lt_fuel _ hfuel hts (by decide))
  statement := .of_follows fun ts hts last ↦
    follows_statement fuel last ts hts (Tokens.lt_fuel _ hfuel hts (by decide))
  statements stop := .of_follows fun ts hts last ↦
    follows_statements stop fuel last ts hts (Tokens.lt_fuel _ hfuel hts (by decide))
  plainBlock stop := stays_plainBlock stop hfuel
  braceBlock := .of_follows fun ts hts last ↦
    follows_braceBlock fuel last ts hts (Tokens.lt_fuel 0 hfuel hts (by decide))
  varDecl := .of_follows fun _ hts _ ↦
    follows_varDecl hts (Tokens.lt_fuel 0 hfuel hts (by decide))
  varDecls := .of_follows fun ts hts last ↦
    follows_varDecls fuel last ts hts (Tokens.lt_fuel _ hfuel hts (by decide))
  bodyParts stop := .of_follows fun _ hts _ ↦
    follows_bodyParts stop hts (Tokens.lt_fuel _ hfuel hts (by decide))
  body := .of_follows fun _ hts _ ↦ follows_body hts (Tokens.lt_fuel 0 hfuel hts (by decide))
  param := .of_follows fun _ hts _ ↦ follows_param hts
  paramList := .of_follows fun ts hts last ↦
    follows_paramList fuel last ts hts (Tokens.lt_fuel 0 hfuel hts (by decide))
  params := .of_follows fun _ hts _ ↦ follows_params hts (Tokens.lt_fuel 0 hfuel hts (by decide))
  returnType := .of_follows fun _ hts _ ↦ follows_returnType hts
  funcDef := .of_follows fun _ hts _ ↦ follows_funcDef hts (Tokens.lt_fuel 0 hfuel hts (by decide))
  funcDefs := .of_follows fun ts hts last ↦
    follows_funcDefs fuel last ts hts (Tokens.lt_fuel _ hfuel hts (by decide))

/-- Over every list of tokens that has the end of the source at its end and nowhere else, reading
with a cursor is safe. Calls never nest deeper than sixteen times the number of tokens, so every
procedure ends. None looks or steps outside the list, none goes back, and each that reads a
construct goes on by a token or more if it succeeds. From the first token on, a program or an
expression is read to the outcome that reading from the front of a list gives, numbered. -/
theorem cursor_in_range {toks ts : List Token} {endMark : Token} {fuel : Nat}
    (htoks : toks = ts ++ [endMark]) (hts : ∀ t ∈ ts, t.kind ≠ .eof) (hend : endMark.kind = .eof)
    (hfuel : 16 * toks.length ≤ fuel) :
    InRange toks fuel ∧
    (∃ pos < toks.length, ∃ last, script toks fuel ⟨0, 0⟩ =
      some ((Parser.script endMark ts).map Script.number, ⟨pos, last⟩)) ∧
    ∃ pos < toks.length, ∃ last, wholeExpression toks fuel ⟨0, 0⟩ =
      some ((Parser.wholeExpression endMark ts).map fun e ↦ (e.number 0).1, ⟨pos, last⟩) := by
  subst htoks
  let T : Tokens := ⟨ts, endMark, hts, hend⟩
  have hlist : 16 * T.list.length ≤ fuel := hfuel
  obtain ⟨s, hscript, -, hlt, -⟩ := finishes_script hlist
  obtain ⟨s', hexpr, -, hlt', -⟩ := finishes_wholeExpression hlist
  rw [T.before_body] at hscript hexpr
  exact ⟨inRange_list hlist, ⟨s.pos, hlt, s.last, hscript⟩, s'.pos, hlt', s'.last, hexpr⟩

/-- A call that the source breaks off is refused at the end and not behind it. -/
theorem cursor_in_range_call :
    ∃ toks : List Token, toks = [⟨.ident, "f", 1, 1⟩, ⟨.leftParen, "(", 1, 2⟩, ⟨.eof, "", 1, 3⟩] ∧
      InRange toks 48 ∧ ∃ pos < 3, ∃ last, script toks 48 ⟨0, 0⟩ =
        some (.error ⟨⟨.eof, "", 1, 3⟩, .unexpectedEnd .expression⟩, ⟨pos, last⟩) := by
  have htoks : ([⟨.ident, "f", 1, 1⟩, ⟨.leftParen, "(", 1, 2⟩, ⟨.eof, "", 1, 3⟩] : List Token) =
    [⟨.ident, "f", 1, 1⟩, ⟨.leftParen, "(", 1, 2⟩] ++ [⟨.eof, "", 1, 3⟩] := rfl
  obtain ⟨hrange, ⟨pos, hlt, last, hrun⟩, -⟩ :=
    cursor_in_range htoks (by decide) rfl (Nat.le_refl 48)
  refine ⟨_, rfl, hrange, pos, hlt, last, hrun.trans ?_⟩
  cbv

end ScriptAnalysis.Cursor
