import ScriptAnalysis.Proofs.Acceptance

/-!
# What reading comes to

Reading a construct from the front of some tokens either takes in a construct of the grammar and
stops where it ends, or it fails at a token. Up to the token where it fails there is nothing wrong:
some tokens behind what was read so far complete the construct. From that token on there is no
help: with any tokens behind it reading fails as well. Each function that reads is shown to come to
one of the two, in the order in which the functions call each other.
-/

namespace ScriptAnalysis

namespace Grammar

/-- The kinds of the tokens that complete what has been begun. -/
def closing : List Kind :=
  [.ident, .int, .type, .leftParen, .rightParen, .leftBrace, .rightBrace, .colon, .assign]

/-- Whether tokens of the closing kinds behind `ts`, whatever else they are, lead to `P`. -/
inductive Completable (P : List Token → Prop) : List Token → Prop
  | done {ts : List Token} (h : P ts) : Completable P ts
  | more {ts : List Token} (kind : Kind) (hkind : kind ∈ closing)
    (h : ∀ t : Token, t.kind = kind → Completable P (ts ++ [t])) : Completable P ts

theorem Completable.bind {P Q : List Token → Prop} {before ts : List Token}
    (h : Completable P ts)
    (hPQ : ∀ more, P (ts ++ more) → Completable Q (before ++ (ts ++ more))) :
    Completable Q (before ++ ts) := by
  induction h with
  | done h => simpa using hPQ [] (by simpa using h)
  | more kind hkind _ ih =>
    refine .more kind hkind fun t ht ↦ ?_
    rw [List.append_assoc]
    apply ih t ht
    intro more hP
    rw [List.append_assoc, List.singleton_append] at hP ⊢
    exact hPQ (t :: more) hP

/-- What is read so far is completed by a further part, which can be completed from nothing. -/
theorem Completable.append {P Q : List Token → Prop} {before : List Token} (h : Completable P [])
    (hPQ : ∀ more, P more → Completable Q (before ++ more)) : Completable Q before := by
  have hQ : Completable Q (before ++ []) := h.bind fun more hP ↦ hPQ more hP
  rwa [List.append_nil] at hQ

end Grammar

namespace Parser

open Grammar

def Refuses {α : Type} {bound : Nat} (r : Result α bound) : Prop := ∃ e, r = .error e

theorem Refuses.bind {α β : Type} {bound bound' : Nat} {r : Result α bound}
    (h : Refuses r) (f : Parsed α bound → Result β bound') : Refuses (r >>= f) := by
  obtain ⟨e, rfl⟩ := h
  exact ⟨e, rfl⟩

theorem Yields.refuses {α β : Type} {bound bound' : Nat} {r : Result α bound}
    {f : Parsed α bound → Result β bound'} {value : α} {rest : List Token}
    (hr : Yields r value rest) (hf : ∀ h, Refuses (f ⟨value, rest, h⟩)) : Refuses (r >>= f) := by
  obtain ⟨h, rfl⟩ := hr
  exact hf h

/-- Whether reading that fails at `t` is bound to fail at `t'` in its place. So it is at the same
token, and where a declaration may not stand also at the beginning of a statement, unless it is
just for a statement that reading has failed. -/
def Alike (e : SyntaxError) (t t' : Token) : Prop :=
  t' = t ∨ (e.fault ≠ .lateDeclaration ∧ t.kind = .varWord ∧ t'.kind = .printWord)

/-- Whether two lists of tokens begin alike. -/
def BeginAlike (e : SyntaxError) (ts us : List Token) : Prop :=
  ∃ t t' more more', ts = t :: more ∧ us = t' :: more' ∧ Alike e t t'

/-- Reading fails with `e` between `before` and `rest`, so far on the way to `P`. -/
structure StuckAt (endMark : Token) (P fails : List Token → Prop) (e : SyntaxError)
    (before rest : List Token) : Prop where
  blame : (∃ expected, e = .unexpected (rest.headD endMark) expected) ∨
    (e = ⟨rest.headD endMark, .lateDeclaration⟩ ∧ (rest.headD endMark).kind = .varWord)
  viable : Completable P before
  statement : e.fault = .lateDeclaration → ∀ t : Token, t.kind = .printWord →
    Completable P (before ++ [t])
  hopeless : ∀ t t' more, rest.head? = some t → Alike e t t' → fails (before ++ t' :: more)

def Stuck (endMark : Token) (P fails : List Token → Prop) (ts : List Token) (e : SyntaxError) :
    Prop :=
  ∃ before rest, ts = before ++ rest ∧ StuckAt endMark P fails e before rest

variable {endMark : Token} {α β : Type}

theorem StuckAt.lift {P Q fails fails' : List Token → Prop} {before pre rest : List Token}
    {e : SyntaxError} (h : StuckAt endMark P fails e pre rest)
    (hviable : Completable Q (before ++ pre))
    (hstatement : e.fault = .lateDeclaration → ∀ t : Token, t.kind = .printWord →
      Completable Q (before ++ (pre ++ [t])))
    (hf : ∀ us, BeginAlike e (pre ++ rest) us → fails us → fails' (before ++ us)) :
    StuckAt endMark Q fails' e (before ++ pre) rest := by
  refine ⟨h.blame, hviable, ?_, ?_⟩
  · intro hlate t ht
    rw [List.append_assoc]
    exact hstatement hlate t ht
  · intro t t' more ht halike
    rw [List.append_assoc]
    apply hf _ _ (h.hopeless t t' more ht halike)
    obtain ⟨rest', rfl⟩ : ∃ rest', rest = t :: rest' := by
      cases rest <;> simp_all
    cases pre with
    | nil => exact ⟨t, t', _, _, rfl, rfl, halike⟩
    | cons first pre => exact ⟨first, first, _, _, rfl, rfl, .inl rfl⟩

section

variable {P Q fails fails' : List Token → Prop} {before ts all : List Token} {e : SyntaxError}

theorem Stuck.lift (h : Stuck endMark P fails ts e) (hall : all = before ++ ts)
    (hP : ∀ us, P us → Completable Q (before ++ us))
    (hf : ∀ us, BeginAlike e ts us → fails us → fails' (before ++ us)) :
    Stuck endMark Q fails' all e := by
  obtain ⟨pre, rest, rfl, hstuck⟩ := h
  refine ⟨before ++ pre, rest, by simp [hall], hstuck.lift ?_ ?_ hf⟩
  · exact hstuck.viable.bind fun more ↦ hP _
  · intro hlate t ht
    exact (hstuck.statement hlate t ht).bind fun more ↦ hP _

/-- The same where `before` is complete by itself, so that it is enough to know what happens with
the token that follows it, or with a statement there. -/
theorem Stuck.follow (h : Stuck endMark P fails ts e) (hall : all = before ++ ts)
    (hbefore : Completable Q before)
    (hP : ∀ first us, first ∈ ts.head? ∨ first.kind = .printWord → P (first :: us) →
      Completable Q (before ++ first :: us))
    (hf : ∀ us, BeginAlike e ts us → fails us → fails' (before ++ us)) :
    Stuck endMark Q fails' all e := by
  obtain ⟨pre, rest, rfl, hstuck⟩ := h
  refine ⟨before ++ pre, rest, by simp [hall], hstuck.lift ?_ ?_ hf⟩
  · cases pre with
    | nil => simpa using hbefore
    | cons first pre => exact hstuck.viable.bind fun more ↦ hP first _ (.inl (by simp))
  · intro hlate t ht
    apply (hstuck.statement hlate t ht).bind
    intro more
    cases pre with
    | nil => exact hP t more (.inr ht)
    | cons first pre => exact hP first _ (.inl (by simp))

end

/-- What reading `ts` comes to: `reads` tells of success, and `completes` and `fails` of failure. -/
def Outcome (endMark : Token) {bound : Nat} (reads : List Token → List Token → α → Prop)
    (completes fails : List Token → Prop) (ts : List Token) (r : Result α bound) : Prop :=
  match r with
  | .ok p => ∃ used, ts = used ++ p.rest ∧ reads used p.rest p.value
  | .error e => Stuck endMark completes fails ts e

section

variable {bound bound' : Nat} {reads : List Token → List Token → α → Prop}
  {reads' : List Token → List Token → β → Prop}
  {completes completes' fails fails' : List Token → Prop}
  {r : Result α bound} {used rest all : List Token}

theorem Outcome.of_yields {f : Parsed α bound → Result β bound'} {value : α}
    (hr : Yields r value rest)
    (hf : ∀ h, Outcome endMark reads' completes' fails' all (f ⟨value, rest, h⟩)) :
    Outcome endMark reads' completes' fails' all (r >>= f) := by
  obtain ⟨h, rfl⟩ := hr
  exact hf h

/-- After `used`, a further part is read and then what is left of the construct. -/
theorem Outcome.bind {f : Parsed α bound → Result β bound'}
    (hr : Outcome endMark reads completes fails rest r) (hall : all = used ++ rest)
    (hok : ∀ us rest' value h, rest = us ++ rest' → reads us rest' value →
      Outcome endMark reads' completes' fails' all (f ⟨value, rest', h⟩))
    (hcompletes : ∀ us, completes us → Completable completes' (used ++ us))
    (hfails : ∀ e us, BeginAlike e rest us → fails us → fails' (used ++ us)) :
    Outcome endMark reads' completes' fails' all (r >>= f) := by
  cases r with
  | ok p =>
    obtain ⟨us, hus, hreads⟩ := hr
    exact hok us p.rest p.value p.shorter hus hreads
  | error e => exact Stuck.lift hr hall hcompletes (hfails e)

/-- After `used`, which is complete by itself, more is read. -/
theorem Outcome.follow {f : Parsed α bound → Result β bound'}
    (hr : Outcome endMark reads completes fails rest r) (hall : all = used ++ rest)
    (hok : ∀ us rest' value h, rest = us ++ rest' → reads us rest' value →
      Outcome endMark reads' completes' fails' all (f ⟨value, rest', h⟩))
    (hused : Completable completes' used)
    (hcompletes : ∀ first us, first ∈ rest.head? ∨ first.kind = .printWord →
      completes (first :: us) → Completable completes' (used ++ first :: us))
    (hfails : ∀ e us, BeginAlike e rest us → fails us → fails' (used ++ us)) :
    Outcome endMark reads' completes' fails' all (r >>= f) := by
  cases r with
  | ok p =>
    obtain ⟨us, hus, hreads⟩ := hr
    exact hok us p.rest p.value p.shorter hus hreads
  | error e => exact Stuck.follow hr hall hused hcompletes (hfails e)

/-- After `used`, a last part is read. -/
theorem Outcome.last {reads' : List Token → List Token → α → Prop}
    (hr : Outcome endMark reads completes fails rest r) (hall : all = used ++ rest)
    (hok : ∀ us rest' value, rest = us ++ rest' → reads us rest' value →
      reads' (used ++ us) rest' value)
    (hcompletes : ∀ us, completes us → Completable completes' (used ++ us))
    (hfails : ∀ e us, BeginAlike e rest us → fails us → fails' (used ++ us)) :
    Outcome endMark reads' completes' fails' all r := by
  cases r with
  | ok p =>
    obtain ⟨us, hus, hreads⟩ := hr
    exact ⟨used ++ us, by rw [hall, List.append_assoc, ← hus], hok us p.rest p.value hus hreads⟩
  | error e => exact Stuck.lift hr hall hcompletes (hfails e)

end

theorem unexpected_fault_ne (t : Token) (expected : Expected) :
    (SyntaxError.unexpected t expected).fault ≠ .lateDeclaration := by
  simp only [SyntaxError.unexpected]
  split
  · simp
  · split <;> simp
  · simp

/-- Reading fails at the first token, in whose place something else could have stood. -/
theorem Stuck.here {P fails : List Token → Prop} {ts : List Token} {expected : Expected}
    (hP : Completable P [])
    (hf : ∀ t t' more more', ts = t :: more →
      Alike (.unexpected (ts.headD endMark) expected) t t' → fails (t' :: more')) :
    Stuck endMark P fails ts (.unexpected (ts.headD endMark) expected) := by
  refine ⟨[], ts, rfl, .inl ⟨expected, rfl⟩, hP, ?_, ?_⟩
  · intro hlate
    exact absurd hlate (unexpected_fault_ne _ _)
  · intro t t' more ht halike
    cases ts with
    | nil => simp at ht
    | cons first others =>
      rw [List.head?_cons, Option.some.injEq] at ht
      subst ht
      exact hf first t' others more rfl halike

theorem Alike.kind_notMem {e : SyntaxError} {t t' : Token} {kinds : List Kind} (h : Alike e t t')
    (ht : t.kind ∉ kinds) (hprint : Kind.printWord ∉ kinds) : t'.kind ∉ kinds := by
  rcases h with rfl | ⟨-, -, hprint'⟩
  · exact ht
  · rw [hprint']
    exact hprint

section

variable {e : SyntaxError} {rest us : List Token}

theorem BeginAlike.startsWith {kind : Kind} (h : BeginAlike e rest us)
    (hrest : startsWith kind rest = false) (hkind : kind ≠ .printWord) :
    startsWith kind us = false := by
  obtain ⟨t, t', more, more', rfl, rfl, halike⟩ := h
  have ht : t.kind ∉ [kind] := by simpa using hrest
  simpa using halike.kind_notMem ht (by simpa using hkind.symm)

theorem BeginAlike.ends {level : Nat} {used : List Token} (h : BeginAlike e rest us)
    (hends : Ends level used rest) : Ends level used us := by
  refine ⟨?_, fun t ht hident ↦ h.startsWith (hends.name t ht hident) (by decide)⟩
  obtain ⟨t, t', more, more', rfl, rfl, rfl | ⟨-, -, hprint⟩⟩ := h
  · exact hends.operator
  · rintro _ ⟨⟩ op hop
    simp [hprint, Operator.ofKind?] at hop

end

theorem refuses_expect {kind : Kind} {t : Token} {more : List Token} (h : t.kind ∉ [kind]) :
    Refuses (expect endMark kind (t :: more)) := by
  rw [expect, if_neg (by simpa using h)]
  exact ⟨_, rfl⟩

theorem expect_outcome {kind : Kind} (hkind : kind ∈ closing) (ts : List Token) :
    Outcome endMark (fun used _ t ↦ used = [t] ∧ t.kind = kind)
      (fun us ↦ ∃ t, us = [t] ∧ t.kind = kind) (fun us ↦ Refuses (expect endMark kind us)) ts
      (expect endMark kind ts) := by
  have hclose : Completable (fun us ↦ ∃ t : Token, us = [t] ∧ t.kind = kind) [] :=
    .more kind hkind fun t ht ↦ .done ⟨t, rfl, ht⟩
  cases ts with
  | nil => exact Stuck.here hclose (by simp)
  | cons t more =>
    rw [expect]
    by_cases ht : t.kind = kind
    · rw [if_pos ht]
      exact ⟨[t], rfl, rfl, ht⟩
    · rw [if_neg ht]
      refine Stuck.here hclose ?_
      rintro _ t' _ more' ⟨⟩ halike
      refine refuses_expect (halike.kind_notMem (by simpa using ht) ?_)
      rintro hprint
      rw [List.mem_singleton] at hprint
      subst hprint
      exact absurd hkind (by decide)

end Parser

end ScriptAnalysis
