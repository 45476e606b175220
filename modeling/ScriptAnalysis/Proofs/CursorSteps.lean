import ScriptAnalysis.Proofs.Acceptance
import ScriptAnalysis.Proofs.Cursor

/-!
# Steps of the cursor

A position in the list of tokens stands before some of its last tokens, and those are what is left
to read. So a procedure on positions is compared with a function that reads from the front of a
list: it comes to the same outcome, and to the position before the tokens that the function leaves.
The nodes it makes have numbers, which are those that numbering the outcome as a tree gives them.
-/

namespace ScriptAnalysis.Cursor

open ScriptAnalysis.Parser (Parsed Result startsWith startsCall startsValue startsExpr)

/-- The tokens of a source and the mark of its end, which is at the end only. -/
structure Tokens where
  body : List Token
  endMark : Token
  body_kind : ∀ t ∈ body, t.kind ≠ .eof
  endMark_kind : endMark.kind = .eof

namespace Tokens

variable (T : Tokens)

def list : List Token := T.body ++ [T.endMark]

/-- The position before the last tokens. -/
def before (ts : List Token) : Nat := T.body.length - ts.length

theorem length_list : T.list.length = T.body.length + 1 := by
  simp [list]

theorem before_body : T.before T.body = 0 := Nat.sub_self _

variable {T} {ts mid rest : List Token} {t : Token}

theorem before_lt : T.before ts < T.list.length := by
  rw [length_list, before]
  omega

theorem before_le (h : rest <:+ ts) : T.before ts ≤ T.before rest := by
  have hlength := h.length_le
  rw [before, before]
  omega

theorem before_append (h : mid ++ rest <:+ T.body) :
    T.before rest = T.before (mid ++ rest) + mid.length := by
  have hlength := h.length_le
  rw [List.length_append] at hlength
  rw [before, before, List.length_append]
  omega

theorem before_cons (h : t :: rest <:+ T.body) : T.before rest = T.before (t :: rest) + 1 :=
  before_append (show [t] ++ rest <:+ T.body from h)

theorem drop_before (h : ts <:+ T.body) : T.list.drop (T.before ts) = ts ++ [T.endMark] := by
  obtain ⟨front, hfront⟩ := h
  have hplace : T.before ts = front.length := by
    rw [before, ← hfront, List.length_append]
    omega
  rw [hplace, list, ← hfront, List.append_assoc, List.drop_left]

theorem getElem?_before (h : ts <:+ T.body) : T.list[T.before ts]? = some (ts.headD T.endMark) := by
  rw [← List.head?_drop, drop_before h]
  cases ts <;> rfl

/-- Every position is before some of the last tokens. -/
theorem exists_before {pos : Nat} (h : pos < T.list.length) :
    ∃ ts, ts <:+ T.body ∧ T.before ts = pos := by
  rw [length_list] at h
  refine ⟨T.body.drop pos, List.drop_suffix _ _, ?_⟩
  rw [before, List.length_drop]
  omega

theorem tail_suffix (h : ts <:+ T.body) : ts.tail <:+ T.body :=
  (List.tail_suffix ts).trans h

theorem kind_ne_eof (h : t :: rest <:+ T.body) : t.kind ≠ .eof :=
  T.body_kind t (h.mem List.mem_cons_self)

end Tokens

variable {T : Tokens} {α α' β β' : Type} {bound bound' last : Nat} {ts mid rest : List Token}
  {t : Token} {number : α → β × Nat} {number' : α' → β' × Nat}

/-- A procedure goes from before `ts`, where `last` is the last number taken, to before `rest`. It
answers the first part of `found`, and the second is then the last number. -/
structure Moves (T : Tokens) (m : Procedure β) (ts : List Token) (last : Nat) (found : β × Nat)
    (rest : List Token) : Prop where
  run : m ⟨T.before ts, last⟩ = some (.ok found.1, ⟨T.before rest, found.2⟩)
  suffix : rest <:+ ts

/-- A procedure comes to what reading from `ts` comes to, after numbering it by `number`. -/
inductive Follows (T : Tokens) (m : Procedure β) (ts : List Token) (last : Nat)
    (number : α → β × Nat) : Result α bound → Prop
  | ok {p : Parsed α bound} (h : Moves T m ts last (number p.value) p.rest) :
    Follows T m ts last number (.ok p)
  | error {e : SyntaxError} {s : State} (hrun : m ⟨T.before ts, last⟩ = some (.error e, s))
    (hle : T.before ts ≤ s.pos) (hlt : s.pos < T.list.length) :
    Follows T m ts last number (.error e)

theorem bind_eq_of_run {m : Procedure β} {k : β → Procedure β'} {s s' : State} {b : β}
    (h : m s = some (.ok b, s')) : (m >>= k) s = k b s' := by
  change (m s >>= _) = _
  rw [h]
  rfl

theorem bind_eq_of_error {m : Procedure β} {k : β → Procedure β'} {s s' : State} {e : SyntaxError}
    (h : m s = some (.error e, s')) : (m >>= k) s = some (.error e, s') := by
  change (m s >>= _) = _
  rw [h]
  rfl

theorem Moves.pure (value : β) : Moves T (pure value) ts last (value, last) ts :=
  ⟨rfl, List.suffix_refl _⟩

theorem Moves.bind {m : Procedure β} {k : β → Procedure β'} {b : β × Nat} {b' : β' × Nat}
    (hm : Moves T m ts last b mid) (hk : Moves T (k b.1) mid b.2 b' rest) :
    Moves T (m >>= k) ts last b' rest :=
  ⟨(bind_eq_of_run hm.run).trans hk.run, hk.suffix.trans hm.suffix⟩

/-- What a procedure comes to after a move. -/
theorem Moves.follows {m : Procedure β} {k : β → Procedure β'} {b : β × Nat} {r : Result α' bound}
    (hm : Moves T m ts last b mid) (hk : Follows T (k b.1) mid b.2 number' r) :
    Follows T (m >>= k) ts last number' r := by
  cases hk with
  | ok hk => exact .ok (hm.bind hk)
  | error hrun hle hlt =>
    have hbefore := Nat.le_trans (Tokens.before_le hm.suffix) hle
    exact .error ((bind_eq_of_run hm.run).trans hrun) hbefore hlt

theorem Follows.bind {m : Procedure β} {k : β → Procedure β'} {r : Result α bound}
    {f : Parsed α bound → Result α' bound'} (hm : Follows T m ts last number r)
    (hk : ∀ p : Parsed α bound, p.rest <:+ ts →
      Follows T (k (number p.value).1) p.rest (number p.value).2 number' (f p)) :
    Follows T (m >>= k) ts last number' (r >>= f) := by
  cases hm with
  | ok hm => exact hm.follows (hk _ hm.suffix)
  | error hrun hle hlt => exact .error (bind_eq_of_error hrun) hle hlt

theorem moves_position : Moves T position ts last (T.before ts, last) ts :=
  ⟨rfl, List.suffix_refl _⟩

theorem moves_nextNumber : Moves T nextNumber ts last (last + 1, last + 1) ts :=
  ⟨rfl, List.suffix_refl _⟩

theorem moves_tokenAt {place : Nat} (h : T.list[place]? = some t) :
    Moves T (tokenAt T.list place) ts last (t, last) ts := by
  refine ⟨?_, List.suffix_refl _⟩
  rw [tokenAt, h]
  rfl

theorem moves_tok (h : ts <:+ T.body) :
    Moves T (tok T.list) ts last (ts.headD T.endMark, last) ts :=
  moves_position.bind (moves_tokenAt (Tokens.getElem?_before h))

theorem moves_next (h : t :: rest <:+ T.body) :
    Moves T (next T.list) (t :: rest) last (t, last) rest := by
  have hplace := Tokens.before_cons h
  have hadvance : Moves T (advance T.list) (t :: rest) last ((), last) rest := by
    refine ⟨?_, List.suffix_cons _ _⟩
    rw [advance, ← hplace, if_pos Tokens.before_lt]
  rw [next]
  apply (moves_tok h).bind
  rw [List.headD_cons, if_neg (Tokens.kind_ne_eof h)]
  exact hadvance.bind (.pure t)

theorem moves_next_end : Moves T (next T.list) [] last (T.endMark, last) [] := by
  rw [next]
  apply (moves_tok List.nil_suffix).bind
  rw [List.headD_nil, if_pos T.endMark_kind]
  exact .pure _

theorem startsWith_eq {kind : Kind} (hkind : kind ≠ .eof) (ts : List Token) :
    startsWith kind ts = decide ((ts.headD T.endMark).kind = kind) := by
  cases ts with
  | nil => simp [T.endMark_kind, hkind.symm]
  | cons t more => rfl

theorem moves_accept {kind : Kind} (hkind : kind ≠ .eof) (h : ts <:+ T.body) :
    Moves T (accept T.list kind) ts last (startsWith kind ts, last)
      (if startsWith kind ts then ts.tail else ts) := by
  rw [accept]
  apply (moves_tok h).bind
  cases ts with
  | nil =>
    rw [List.headD_nil, T.endMark_kind, if_neg hkind.symm]
    exact .pure _
  | cons t more =>
    by_cases ht : t.kind = kind
    · rw [Parser.startsWith_cons, decide_eq_true ht, List.headD_cons, if_pos ht]
      exact (moves_next h).bind (.pure true)
    · rw [Parser.startsWith_cons, decide_eq_false ht, List.headD_cons, if_neg ht]
      exact .pure _

theorem moves_peekKind (h : t :: rest <:+ T.body) :
    Moves T (peekKind T.list 1) (t :: rest) last ((rest.headD T.endMark).kind, last)
      (t :: rest) := by
  have hplace := Tokens.before_cons h
  rw [peekKind]
  apply moves_position.bind
  rw [← hplace, if_neg (Nat.not_le_of_lt Tokens.before_lt)]
  exact (moves_tokenAt (Tokens.getElem?_before (Tokens.tail_suffix h))).bind (.pure _)

theorem follows_unexpected {expected : Expected} (h : ts <:+ T.body) :
    Follows T (unexpected T.list expected) ts last number
      (Parser.fail T.endMark expected ts : Result α bound) := by
  rw [unexpected]
  apply (moves_tok h).follows
  exact .error rfl (Nat.le_refl _) Tokens.before_lt

/-- A token takes no number. -/
theorem follows_expect {kind : Kind} (hkind : kind ≠ .eof) (h : ts <:+ T.body) :
    Follows T (expect T.list kind) ts last (·, last) (Parser.expect T.endMark kind ts) := by
  rw [expect]
  apply (moves_tok h).follows
  cases ts with
  | nil =>
    rw [List.headD_nil, T.endMark_kind, if_neg hkind.symm]
    exact follows_unexpected h
  | cons t more =>
    rw [List.headD_cons, Parser.expect]
    split
    · exact .ok (moves_next h)
    · exact follows_unexpected h

/-- The end of the source is found where no token is left. -/
theorem moves_expect_end : Moves T (expect T.list .eof) [] last (T.endMark, last) [] := by
  rw [expect]
  apply (moves_tok List.nil_suffix).bind
  rw [List.headD_nil, if_pos T.endMark_kind]
  exact moves_next_end

theorem moves_tokensFrom (h : mid ++ rest <:+ T.body) :
    Moves T (tokensFrom T.list (T.before (mid ++ rest)) (T.before rest)) rest last (mid, last)
      rest := by
  refine ⟨?_, List.suffix_refl _⟩
  have hplace := Tokens.before_append h
  have hle : T.before rest ≤ T.list.length := Nat.le_of_lt Tokens.before_lt
  rw [tokensFrom, if_pos ⟨by omega, hle⟩, Tokens.drop_before h, hplace, Nat.add_sub_cancel_left,
    List.append_assoc, List.take_left]

theorem moves_extent (h : mid ++ rest <:+ T.body) :
    Moves T (extent T.list (T.before (mid ++ rest))) rest last
      (Extent.between T.endMark (mid ++ rest) rest, last) rest := by
  have hplace := Tokens.before_append h
  rw [Extent.between_append, extent]
  apply moves_position.bind
  cases mid with
  | nil =>
    rw [List.nil_append, if_pos (Nat.le_refl _)]
    exact (moves_tok h).bind (.pure _)
  | cons first more =>
    have hlast : T.list[T.before rest - 1]? = some (more.getLastD first) := by
      have hback : T.before rest - 1 = T.before (first :: more ++ rest) + more.length := by
        rw [hplace, List.length_cons]
        omega
      have hused : (first :: more)[more.length]? = some (more.getLastD first) := by
        rw [List.getLastD_eq_getLast?, ← List.getLast?_cons, List.getLast?_eq_getElem?]
        rfl
      rw [hback, ← List.getElem?_drop, Tokens.drop_before h, List.append_assoc,
        List.getElem?_append_left (by simp), hused]
    rw [if_neg (by rw [hplace, List.length_cons]; omega)]
    apply (moves_tokenAt (Tokens.getElem?_before h)).bind
    apply (moves_tokenAt hlast).bind
    apply (moves_tokensFrom h).bind
    exact .pure _

theorem Follows.accept {kind : Kind} {yes no : Procedure β} {r : Result α bound}
    (hkind : kind ≠ .eof) (h : ts <:+ T.body)
    (hyes : startsWith kind ts = true → Follows T yes ts.tail last number r)
    (hno : startsWith kind ts = false → Follows T no ts last number r) :
    Follows T (Cursor.accept T.list kind >>= fun found ↦ if found then yes else no) ts last number
      r := by
  apply (moves_accept hkind h).follows
  cases hstarts : startsWith kind ts with
  | true => exact hyes hstarts
  | false => exact hno hstarts

/-- A node that began before `start` ends before `rest`, and takes the next number. -/
theorem moves_tag {start : List Token} (hstart : start <:+ T.body) (hrest : rest <:+ start) :
    Moves T (tag T.list (T.before start)) rest last
      (⟨last + 1, Extent.between T.endMark start rest⟩, last + 1) rest := by
  obtain ⟨used, rfl⟩ := hrest
  exact moves_nextNumber.bind ((moves_extent hstart).bind (.pure _))

/-- The last step of a procedure is to complete the node. -/
theorem follows_node {start : List Token} {node : Tag → β} {value : α} {hlt : rest.length < bound}
    (hstart : start <:+ T.body) (hrest : rest <:+ start)
    (hnumber : number value =
      (node ⟨last + 1, Extent.between T.endMark start rest⟩, last + 1)) :
    Follows T (tag T.list (T.before start) >>= fun note ↦ pure (node note)) rest last number
      (.ok ⟨value, rest, hlt⟩) := by
  apply (moves_tag hstart hrest).follows
  apply Follows.ok
  rw [hnumber]
  exact .pure _

/-- A node of one token. -/
theorem follows_leaf {node : Tag → β} {value : α} {hlt : rest.length < bound}
    (h : t :: rest <:+ T.body)
    (hnumber : number value =
      (node ⟨last + 1, Extent.between T.endMark (t :: rest) rest⟩, last + 1)) :
    Follows T
      (do
        let _ ← next T.list
        let note ← tag T.list (T.before (t :: rest))
        return node note)
      (t :: rest) last number (.ok ⟨value, rest, hlt⟩) :=
  (moves_next h).follows (follows_node h (List.suffix_cons t rest) hnumber)

theorem startsCall_iff (T : Tokens) (ht : t.kind = .ident) :
    startsCall (t :: rest) = true ↔ (rest.headD T.endMark).kind = .leftParen := by
  rw [startsCall, decide_eq_true ht, Bool.true_and, startsWith_eq (T := T) (by decide),
    decide_eq_true_iff]

end ScriptAnalysis.Cursor
