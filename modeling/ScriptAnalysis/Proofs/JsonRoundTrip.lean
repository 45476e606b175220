import ScriptAnalysis.Diagnostic.Log
import ScriptAnalysis.Proofs.JsonReading
import ScriptAnalysis.Proofs.Runs

/-!
# Written JSON texts are read back

What is written on one line for a value is read as that value, whatever follows it, unless the value
is a number and what follows could be taken for more of it. So the text of a log can be read by
anyone who reads the format, and gives back its entries in their order.
-/

namespace ScriptAnalysis.Text.JsonReader

/-- A reading answers `value` and leaves the characters `rest`. -/
def Takes {α : Type} {bound : Nat} (r : Reading α bound) (value : α) (rest : List Char) : Prop :=
  ∃ h, r = some ⟨value, rest, h⟩

variable {α β : Type} {bound bound' : Nat} {c : Char} {cs rest : List Char}

theorem Takes.some (taken : Taken α bound) : Takes (some taken) taken.value taken.rest :=
  ⟨taken.shorter, rfl⟩

theorem Takes.bind {r : Reading α bound} {f : Taken α bound → Reading β bound'} {value : α}
    {result : β} {mid : List Char} (hr : Takes r value mid)
    (hf : ∀ h, Takes (f ⟨value, mid, h⟩) result rest) : Takes (r >>= f) result rest := by
  obtain ⟨h, rfl⟩ := hr
  exact hf h

theorem takes_symbol (hc : isBlank c = false) : Takes (symbol (c :: rest)) c rest := by
  rw [symbol, hc]
  exact .some _

theorem takes_expect (hc : isBlank c = false) : Takes (expect c (c :: rest)) c rest := by
  apply (takes_symbol hc).bind
  intro h
  rw [if_pos rfl]
  exact .some _

theorem hexValue?_hexDigit {n : Nat} (h : n < 16) : hexValue? (hexDigit n) = some n := by
  have hall : ∀ n : Fin 16, hexValue? (hexDigit n) = some n.val := by decide
  exact hall ⟨n, h⟩

theorem takes_codeUnit {n : Nat} (h : n < 0x10000) : Takes (codeUnit (hex 4 n ++ rest)) n rest := by
  have hdigit (k : Nat) : hexValue? (hexDigit (k % 16)) = some (k % 16) :=
    hexValue?_hexDigit (Nat.mod_lt _ (by decide))
  have hvalue : 16 * (16 * (16 * (n / 16 / 16 / 16 % 16) + n / 16 / 16 % 16) + n / 16 % 16) + n % 16
      = n := by omega
  refine ⟨by simp [hex]; omega, ?_⟩
  simp [hex, codeUnit, hdigit, hvalue]

/-- How a character is written: as a letter after a backslash, by its number, or as it is. -/
theorem escapeChar_cases (c : Char) :
    (∃ letter, letter ≠ 'u' ∧ plainEscape? letter = some c ∧
      Json.escapeChar c = ['\\', letter]) ∨
    (c.toNat < 0x10000 ∧ Json.escapeChar c = '\\' :: 'u' :: hex 4 c.toNat) ∨
    (0x20 ≤ c.toNat ∧ c ≠ '"' ∧ c ≠ '\\' ∧ Json.escapeChar c = [c]) := by
  unfold Json.escapeChar
  split
  · exact .inl ⟨'"', by decide, rfl, rfl⟩
  · exact .inl ⟨'\\', by decide, rfl, rfl⟩
  · exact .inl ⟨'n', by decide, rfl, rfl⟩
  · exact .inl ⟨'r', by decide, rfl, rfl⟩
  · exact .inl ⟨'t', by decide, rfl, rfl⟩
  · exact .inl ⟨'b', by decide, rfl, rfl⟩
  · exact .inl ⟨'f', by decide, rfl, rfl⟩
  · split
    case isTrue hnumeric =>
      refine .inr (.inl ⟨?_, rfl⟩)
      obtain h | rfl | rfl | rfl | rfl | rfl := hnumeric
      · exact h.trans (by decide)
      all_goals decide
    case isFalse hplain =>
      have hlow : 0x20 ≤ c.toNat := Nat.le_of_not_lt fun h ↦ hplain (.inl h)
      exact .inr (.inr ⟨hlow, by assumption, by assumption, rfl⟩)

theorem takes_numericEscape (hc : c.toNat < 0x10000) :
    Takes (numericEscape (hex 4 c.toNat ++ rest)) c rest := by
  apply (takes_codeUnit hc).bind
  intro h
  -- The number of a character is never half of a pair.
  have hvalid : c.toNat < 0xd800 ∨ 0xdfff < c.toNat ∧ c.toNat < 0x110000 := c.valid
  dsimp only
  rw [if_neg (by omega), if_neg (by omega), Char.ofNat_toNat]
  exact .some _

/-- A written character is read as itself. -/
theorem takes_escapeChar {others : List Char} (h : Takes (stringTail cs) others rest) :
    Takes (stringTail (Json.escapeChar c ++ cs)) (c :: others) rest := by
  obtain ⟨letter, hletter, hmeant, htext⟩ | ⟨hc, htext⟩ | ⟨hlow, hquote, hslash, htext⟩ :=
    escapeChar_cases c
  · have hescape : Takes (escape (letter :: cs)) c cs := by
      rw [escape, hmeant]
      · exact .some _
      · exact hletter
    rw [htext, List.cons_append, List.cons_append, List.nil_append, stringTail]
    exact hescape.bind fun _ ↦ h.bind fun _ ↦ .some _
  · have hescape : Takes (escape ('u' :: (hex 4 c.toNat ++ cs))) c cs :=
      (takes_numericEscape hc).bind fun _ ↦ .some _
    rw [htext, List.cons_append, List.cons_append, stringTail]
    exact hescape.bind fun _ ↦ h.bind fun _ ↦ .some _
  · rw [htext, List.singleton_append, stringTail]
    · rw [if_neg (by omega)]
      exact h.bind fun _ ↦ .some _
    all_goals assumption

theorem takes_stringTail (content : List Char) :
    Takes (stringTail (content.flatMap Json.escapeChar ++ '"' :: rest)) content rest := by
  induction content with
  | nil =>
    rw [List.flatMap_nil, List.nil_append, stringTail]
    exact .some _
  | cons c content ih =>
    rw [List.flatMap_cons, List.append_assoc]
    exact takes_escapeChar ih

theorem toList_quote (s : String) :
    (Json.quote s).toList ++ rest = '"' :: (s.toList.flatMap Json.escapeChar ++ '"' :: rest) := by
  simp [Json.quote]

theorem takes_quote (s : String) : Takes (string ((Json.quote s).toList ++ rest)) s rest := by
  rw [toList_quote]
  apply (takes_expect (by decide)).bind
  intro h
  apply (takes_stringTail s.toList).bind
  intro h'
  dsimp only
  rw [String.ofList_toList]
  exact .some _

/-- Whether a number ends where `rest` follows it. -/
def EndsNumber (rest : List Char) : Prop :=
  ∀ c ∈ rest.head?, c.isDigit = false ∧ c ≠ '.' ∧ c ≠ 'e' ∧ c ≠ 'E'

theorem takes_digits {ds : List Char} (hne : ds ≠ []) (hds : ∀ c ∈ ds, c.isDigit = true)
    (hrest : ∀ c ∈ rest.head?, c.isDigit = false) : Takes (digits (ds ++ rest)) ds rest := by
  obtain ⟨d, ds, rfl⟩ := List.exists_cons_of_ne_nil hne
  obtain ⟨htake, hdrop⟩ := span_append (fun c hc ↦ hds c (List.mem_cons_of_mem _ hc)) hrest
  refine ⟨by rw [List.length_append, List.length_cons]; omega, ?_⟩
  simp only [List.cons_append, digits, hds d List.mem_cons_self, if_true, htake, hdrop]

/-- Only the digits of zero begin with a zero. -/
theorem eq_zero_of_head?_toDigits {n : Nat} (h : (Nat.toDigits 10 n).head? = some '0') : n = 0 := by
  induction n using Nat.strong_induction_on with
  | _ n ih =>
    by_cases hn : n < 10
    · rw [Nat.toDigits_of_lt_base hn] at h
      have hall : ∀ n : Fin 10, n.val.digitChar = '0' → n.val = 0 := by decide
      exact hall ⟨n, hn⟩ (by simpa using h)
    · have hle : 10 ≤ n := Nat.le_of_not_lt hn
      rw [Nat.toDigits_of_base_le (by decide) hle,
        List.head?_append_of_ne_nil _ Nat.toDigits_ne_nil] at h
      have hzero := ih (n / 10) (by omega) h
      omega

theorem exists_toDigits_eq_cons (n : Nat) :
    ∃ d ds, Nat.toDigits 10 n = d :: ds ∧ d.isDigit = true := by
  obtain ⟨d, ds, hds⟩ := List.exists_cons_of_ne_nil (Nat.toDigits_ne_nil (n := n) (b := 10))
  have hd : d ∈ Nat.toDigits 10 n := hds ▸ List.mem_cons_self
  exact ⟨d, ds, hds, Nat.isDigit_of_mem_toDigits (by decide) (by decide) hd⟩

theorem takes_magnitude {n : Nat} (hrest : EndsNumber rest) :
    Takes (magnitude (Nat.toDigits 10 n ++ rest)) n rest := by
  have hdigits : ∀ c ∈ Nat.toDigits 10 n, c.isDigit = true :=
    fun c ↦ Nat.isDigit_of_mem_toDigits (by decide) (by decide)
  have hwhole : Takes (wholePart (Nat.toDigits 10 n ++ rest)) (Nat.toDigits 10 n) rest := by
    apply (takes_digits Nat.toDigits_ne_nil hdigits fun c hc ↦ (hrest c hc).1).bind
    intro h
    rw [if_neg]
    · exact .some _
    rintro ⟨hhead, hne⟩
    obtain rfl := eq_zero_of_head?_toDigits hhead
    exact hne rfl
  have hfraction : Takes (fraction rest) [] rest := by
    rw [fraction]
    · exact .some _
    · rintro more rfl
      exact (hrest '.' rfl).2.1 rfl
  have hexponent : Takes (exponent rest) 0 rest := by
    rw [exponent]
    · exact .some _
    · rintro more rfl
      exact (hrest 'e' rfl).2.2.1 rfl
    · rintro more rfl
      exact (hrest 'E' rfl).2.2.2 rfl
  apply hwhole.bind
  intro h₁
  apply hfraction.bind
  intro h₂
  apply hexponent.bind
  intro h₃
  have hvalue : (Nat.ofDigitChars 10 (Nat.toDigits 10 n ++ []) 0 : ℚ) *
      10 ^ ((0 : ℤ) - ([] : List Char).length) = n := by
    simp [Nat.ofDigitChars_ten_toDigits]
  dsimp only
  rw [hvalue]
  exact .some _

theorem toList_toString_ofNat (n : Nat) :
    (toString (Int.ofNat n)).toList = Nat.toDigits 10 n := Nat.toList_repr

theorem toList_toString_negSucc (n : Nat) :
    (toString (Int.negSucc n)).toList = '-' :: Nat.toDigits 10 (n + 1) := by
  change ("-" ++ (n + 1).repr).toList = _
  rw [String.toList_append, Nat.toList_repr]
  rfl

theorem takes_number (n : Int) (hrest : EndsNumber rest) :
    Takes (number ((toString n).toList ++ rest)) n rest := by
  cases n with
  | ofNat n =>
    rw [toList_toString_ofNat, number]
    · exact takes_magnitude hrest
    · intro more hmore
      obtain ⟨d, ds, hds, hd⟩ := exists_toDigits_eq_cons n
      rw [hds, List.cons_append, List.cons.injEq] at hmore
      rw [hmore.1] at hd
      exact absurd hd (by decide)
  | negSucc n =>
    rw [toList_toString_negSucc, List.cons_append, number]
    apply (takes_magnitude hrest).bind
    intro h
    have hvalue : -((n + 1 : Nat) : ℚ) = (Int.negSucc n : ℚ) := (Int.cast_negSucc n).symm
    dsimp only
    rw [hvalue]
    exact .some _

/-! ## Values -/

/-- Whether a character begins a number. -/
def beginsNumber (c : Char) : Bool := c = '-' || c.isDigit

theorem exists_toString_eq_cons (n : Int) :
    ∃ c cs, (toString n).toList = c :: cs ∧ beginsNumber c = true := by
  cases n with
  | ofNat n =>
    obtain ⟨d, ds, hds, hd⟩ := exists_toDigits_eq_cons n
    exact ⟨d, ds, (toList_toString_ofNat n).trans hds, by simp [beginsNumber, hd]⟩
  | negSucc n => exact ⟨'-', _, toList_toString_negSucc n, rfl⟩

theorem isBlank_of_beginsNumber (h : beginsNumber c = true) : isBlank c = false := by
  cases hblank : isBlank c with
  | false => rfl
  | true =>
    obtain ((rfl | rfl) | rfl) | rfl : ((c = ' ' ∨ c = '\t') ∨ c = '\n') ∨ c = '\r' := by
      simpa [isBlank] using hblank
    all_goals exact absurd h (by decide)

/-- A number is told from the other values by its first character. -/
theorem takes_value_number {n : ℚ} (hc : beginsNumber c = true)
    (h : Takes (number (c :: cs)) n rest) : Takes (value (c :: cs)) (.number n) rest := by
  rw [value]
  apply (takes_symbol (isBlank_of_beginsNumber hc)).bind
  intro hshorter
  dsimp only
  split
  all_goals try exact absurd hc (by decide)
  exact h.bind fun _ ↦ .some _

mutual

/-- What a value of the library stands for. -/
def Value.of : Json → Value
  | .number n => .number n
  | .bool b => .bool b
  | .string s => .string s
  | .array items => .array (Value.ofItems items)
  | .object members => .object (Value.ofMembers members)

def Value.ofItems : List Json → List Value
  | [] => []
  | item :: rest => Value.of item :: Value.ofItems rest

def Value.ofMembers : List (String × Json) → List (String × Value)
  | [] => []
  | (name, value) :: rest => (name, Value.of value) :: Value.ofMembers rest

end

/-- A written value begins with a character that neither is a blank nor closes a list. -/
theorem exists_compact_eq_cons (j : Json) :
    ∃ c cs, j.compact.toList = c :: cs ∧ isBlank c = false ∧ c ≠ ']' := by
  cases j with
  | number n =>
    obtain ⟨c, cs, hcs, hc⟩ := exists_toString_eq_cons n
    refine ⟨c, cs, by rw [Json.compact, hcs], isBlank_of_beginsNumber hc, ?_⟩
    rintro rfl
    exact absurd hc (by decide)
  | bool b =>
    cases b with
    | false => exact ⟨'f', ['a', 'l', 's', 'e'], by simp [Json.compact, Json.boolText], by decide⟩
    | true => exact ⟨'t', ['r', 'u', 'e'], by simp [Json.compact, Json.boolText], by decide⟩
  | string s => exact ⟨'"', _, by simp [Json.compact, Json.quote]; rfl, by decide⟩
  | array items => exact ⟨'[', _, by simp [Json.compact]; rfl, by decide⟩
  | object members => exact ⟨'{', _, by simp [Json.compact]; rfl, by decide⟩

theorem endsNumber_cons (hc : c.isDigit = false ∧ c ≠ '.' ∧ c ≠ 'e' ∧ c ≠ 'E') :
    EndsNumber (c :: rest) := by
  intro d hd
  obtain rfl : c = d := by simpa using hd
  exact hc

theorem takes_word (letters : List Char) (v : Value) :
    Takes (word letters v (letters ++ rest)) v rest := by
  refine ⟨by rw [List.length_append]; omega, ?_⟩
  simp [word]

theorem takes_boolText (b : Bool) :
    Takes (value ((Json.boolText b).toList ++ rest)) (.bool b) rest := by
  cases b with
  | false =>
    have htext : (Json.boolText false).toList = 'f' :: ['a', 'l', 's', 'e'] := by
      simp [Json.boolText]
    rw [htext, List.cons_append, value]
    apply (takes_symbol (by decide)).bind
    intro h
    exact (takes_word _ _).bind fun _ ↦ .some _
  | true =>
    have htext : (Json.boolText true).toList = 't' :: ['r', 'u', 'e'] := by
      simp [Json.boolText]
    rw [htext, List.cons_append, value]
    apply (takes_symbol (by decide)).bind
    intro h
    exact (takes_word _ _).bind fun _ ↦ .some _

theorem toList_intercalate_cons_cons (first second : String) (more : List String) :
    (",".intercalate (first :: second :: more)).toList ++ rest =
      first.toList ++ ',' :: ((",".intercalate (second :: more)).toList ++ rest) := by
  rw [String.intercalate_cons_cons]
  simp

theorem exists_intercalate_eq_cons {first : String} (more : List String)
    (hfirst : first.toList = c :: cs) :
    ∃ cs', (",".intercalate (first :: more)).toList = c :: cs' := by
  cases more with
  | nil => exact ⟨cs, by rw [String.intercalate_singleton, hfirst]⟩
  | cons second more =>
    rw [String.intercalate_cons_cons, String.toList_append, String.toList_append, hfirst]
    exact ⟨_, rfl⟩

theorem takes_member (name : String) {j : Json} {v : Value}
    (h : Takes (value (j.compact.toList ++ rest)) v rest) :
    Takes (member ((Json.quote name ++ ":" ++ j.compact).toList ++ rest)) (name, v) rest := by
  have htext : (Json.quote name ++ ":" ++ j.compact).toList ++ rest =
      (Json.quote name).toList ++ ':' :: (j.compact.toList ++ rest) := by
    simp
  rw [htext, member]
  apply (takes_quote name).bind
  intro hname
  apply (takes_expect (by decide)).bind
  intro hcolon
  exact h.bind fun _ ↦ .some _

/-- The items of an array are read as a list of them, unless there is none. -/
theorem takes_items (found : List Json) (hlist : found ≠ [] →
      Takes (itemList ((",".intercalate (Json.compactItems found)).toList ++ ']' :: rest))
        (Value.ofItems found) rest) :
    Takes (items ((",".intercalate (Json.compactItems found)).toList ++ ']' :: rest))
      (Value.ofItems found) rest := by
  cases found with
  | nil =>
    rw [Json.compactItems, String.intercalate_nil, String.toList_empty, List.nil_append, items]
    apply (takes_symbol (by decide)).bind
    intro h
    exact .some _
  | cons first more =>
    obtain ⟨c, cs, hcs, hblank, hclose⟩ := exists_compact_eq_cons first
    obtain ⟨cs', hcs'⟩ := exists_intercalate_eq_cons (Json.compactItems more) hcs
    specialize hlist (List.cons_ne_nil _ _)
    rw [Json.compactItems, hcs', List.cons_append] at hlist ⊢
    rw [items]
    apply (takes_symbol hblank).bind
    intro h
    dsimp only
    rw [if_neg hclose]
    exact hlist

theorem takes_members (found : List (String × Json)) (hlist : found ≠ [] →
      Takes (memberList ((",".intercalate (Json.compactMembers found)).toList ++ '}' :: rest))
        (Value.ofMembers found) rest) :
    Takes (members ((",".intercalate (Json.compactMembers found)).toList ++ '}' :: rest))
      (Value.ofMembers found) rest := by
  cases found with
  | nil =>
    rw [Json.compactMembers, String.intercalate_nil, String.toList_empty, List.nil_append, members]
    apply (takes_symbol (by decide)).bind
    intro h
    exact .some _
  | cons entry more =>
    obtain ⟨name, first⟩ := entry
    have hcs : (Json.quote name ++ ":" ++ first.compact).toList =
        '"' :: (name.toList.flatMap Json.escapeChar ++ '"' :: ':' :: first.compact.toList) := by
      simp [Json.quote]
    obtain ⟨cs', hcs'⟩ := exists_intercalate_eq_cons (Json.compactMembers more) hcs
    specialize hlist (List.cons_ne_nil _ _)
    rw [Json.compactMembers, hcs', List.cons_append] at hlist ⊢
    rw [members]
    apply (takes_symbol (by decide)).bind
    intro h
    exact hlist

mutual

theorem takes_compact : (j : Json) → (rest : List Char) → EndsNumber rest →
    Takes (value (j.compact.toList ++ rest)) (.of j) rest
  | .number n, rest, hrest => by
    obtain ⟨c, cs, hcs, hc⟩ := exists_toString_eq_cons n
    have hnumber := takes_number n hrest
    rw [hcs] at hnumber
    rw [Json.compact, hcs]
    exact takes_value_number hc hnumber
  | .bool b, rest, _ => takes_boolText b
  | .string s, rest, _ => by
    rw [Json.compact, toList_quote, value]
    apply (takes_symbol (by decide)).bind
    intro h
    apply (takes_stringTail s.toList).bind
    intro h'
    dsimp only
    rw [String.ofList_toList]
    exact .some _
  | .array found, rest, _ => by
    have htext : (Json.array found).compact.toList ++ rest =
        '[' :: ((",".intercalate (Json.compactItems found)).toList ++ ']' :: rest) := by
      simp [Json.compact]
    rw [htext, value]
    apply (takes_symbol (by decide)).bind
    intro h
    exact (takes_items found fun h ↦ takes_itemList found h rest).bind fun _ ↦ .some _
  | .object found, rest, _ => by
    have htext : (Json.object found).compact.toList ++ rest =
        '{' :: ((",".intercalate (Json.compactMembers found)).toList ++ '}' :: rest) := by
      simp [Json.compact]
    rw [htext, value]
    apply (takes_symbol (by decide)).bind
    intro h
    exact (takes_members found fun h ↦ takes_memberList found h rest).bind fun _ ↦ .some _

theorem takes_itemList : (found : List Json) → found ≠ [] → (rest : List Char) →
    Takes (itemList ((",".intercalate (Json.compactItems found)).toList ++ ']' :: rest))
      (Value.ofItems found) rest
  | [first], _, rest => by
    rw [Json.compactItems, Json.compactItems, String.intercalate_singleton, itemList]
    apply (takes_compact first _ (endsNumber_cons (by decide))).bind
    intro h
    apply (takes_symbol (by decide)).bind
    intro h'
    exact .some _
  | first :: second :: more, _, rest => by
    rw [Json.compactItems, Json.compactItems, toList_intercalate_cons_cons, itemList]
    apply (takes_compact first _ (endsNumber_cons (by decide))).bind
    intro h
    apply (takes_symbol (by decide)).bind
    intro h'
    exact (takes_itemList (second :: more) (by simp) rest).bind fun _ ↦ .some _

theorem takes_memberList : (found : List (String × Json)) → found ≠ [] → (rest : List Char) →
    Takes (memberList ((",".intercalate (Json.compactMembers found)).toList ++ '}' :: rest))
      (Value.ofMembers found) rest
  | [(name, first)], _, rest => by
    rw [Json.compactMembers, Json.compactMembers, String.intercalate_singleton, memberList]
    apply (takes_member name (takes_compact first _ (endsNumber_cons (by decide)))).bind
    intro h
    apply (takes_symbol (by decide)).bind
    intro h'
    exact .some _
  | (name, first) :: (name', second) :: more, _, rest => by
    rw [Json.compactMembers, Json.compactMembers, toList_intercalate_cons_cons, memberList]
    apply (takes_member name (takes_compact first _ (endsNumber_cons (by decide)))).bind
    intro h
    apply (takes_symbol (by decide)).bind
    intro h'
    exact (takes_memberList ((name', second) :: more) (by simp) rest).bind fun _ ↦ .some _

end

theorem decode?_compact (j : Json) : decode? j.compact = some (.of j) := by
  have hread := takes_compact j [] (fun c hc ↦ nomatch hc)
  rw [List.append_nil] at hread
  obtain ⟨h, hvalue⟩ := hread
  rw [decode?, hvalue]
  rfl

theorem Value.ofItems_eq_map (found : List Json) : Value.ofItems found = found.map Value.of := by
  induction found with
  | nil => rfl
  | cons first more ih => rw [Value.ofItems, ih, List.map_cons]

end ScriptAnalysis.Text.JsonReader

namespace ScriptAnalysis

open Text.JsonReader (Value decode?)

/-- The text of a log is one array. After any additions it is read as the entries of the log in
their order, each an object of its place, its category and its texts. Without additions it is the
empty array. -/
theorem log_text_decodes (additions : List Entry) :
    decode? (additions.foldl Log.add .empty).json.compact =
      some (.array ((additions.foldl Log.add .empty).entries.map fun e ↦
        .object
          [("line", .number e.span.start.line), ("col", .number e.span.start.col),
            ("code", .string e.category.code), ("category", .string e.category.name),
            ("message", .string e.message), ("source", .string e.source)])) ∧
    Log.empty.json.compact = "[]" := by
  constructor
  · rw [Text.JsonReader.decode?_compact, Log.json, Value.of, Value.ofItems_eq_map, List.map_map]
    rfl
  · rfl

end ScriptAnalysis
