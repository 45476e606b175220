import ScriptAnalysis.Text.Utf8

/-!
# Bytes decoded in parts

No character reaches over a byte that cannot continue one, whether the bytes before it are well
formed or not. So bytes may be cut before such a byte and decoded in parts. The bytes below 0x80 are
of this kind, and each stands for itself and for nothing else.
-/

namespace ScriptAnalysis.Text

variable {b : UInt8} {rest front back : List UInt8} {c : Char} {count payload least : Nat}

theorem toNat_ofNat_of_isValidChar {n : Nat} (h : n.isValidChar) : (Char.ofNat n).toNat = n := by
  rw [Char.ofNat, dif_pos h]
  rfl

theorem front?_of_lead (h : lead? b = some (count, payload, least)) :
    front? b rest =
      if (rest.take count).length = count ∧ (rest.take count).all isContinuation ∧
          least ≤ assemble payload (rest.take count) ∧
          (assemble payload (rest.take count)).isValidChar then
        some (Char.ofNat (assemble payload (rest.take count)), count)
      else none := by
  rw [front?, h]
  rfl

theorem exists_lead_of_front? (h : front? b rest = some (c, count)) :
    ∃ payload least, lead? b = some (count, payload, least) ∧ count ≤ rest.length ∧
      c.toNat = assemble payload (rest.take count) ∧ least ≤ c.toNat := by
  cases hlead : lead? b with
  | none =>
    rw [front?, hlead] at h
    cases h
  | some lead =>
    obtain ⟨size, payload, least⟩ := lead
    rw [front?_of_lead hlead] at h
    split at h
    · next hfits =>
      have hchar : (Char.ofNat (assemble payload (rest.take size))).toNat =
          assemble payload (rest.take size) := toNat_ofNat_of_isValidChar hfits.2.2.2
      have hsize : size ≤ rest.length := by
        rw [← hfits.1, List.length_take]
        exact Nat.min_le_right _ _
      cases h
      exact ⟨payload, least, rfl, hsize, hchar, le_of_le_of_eq hfits.2.2.1 hchar.symm⟩
    · cases h

theorem front?_append (hback : ∀ d ∈ back.head?, isContinuation d = false) :
    front? b (rest ++ back) = front? b rest := by
  cases hlead : lead? b with
  | none => simp [front?, hlead]
  | some lead =>
    obtain ⟨count, payload, least⟩ := lead
    rw [front?_of_lead hlead, front?_of_lead hlead]
    by_cases hcount : count ≤ rest.length
    · rw [List.take_append_of_le_length hcount]
    · -- The sequence is cut off either way: by the end of the bytes or by the byte behind them.
      have hshort : (rest.take count).length ≠ count := by
        rw [List.length_take]
        omega
      have hcut : ∀ {p : Prop}, ¬ ((rest.take count).length = count ∧ p) := fun hfits ↦
        hshort hfits.1
      cases back with
      | nil => rw [List.append_nil]
      | cons d back =>
        rw [if_neg hcut, if_neg]
        intro hfits
        have hmem : d ∈ (rest ++ d :: back).take count := by
          obtain ⟨more, hmore⟩ := Nat.exists_eq_add_of_lt (Nat.lt_of_not_le hcount)
          rw [hmore, Nat.add_assoc, List.take_length_add_append, List.take_succ_cons]
          simp
        have hd := List.all_eq_true.1 hfits.2.1 d hmem
        rw [hback d rfl] at hd
        cases hd

theorem decodeUtf8_of_some (h : front? b rest = some (c, count)) :
    decodeUtf8 (b :: rest) = c :: decodeUtf8 (rest.drop count) := by
  rw [decodeUtf8, h]

theorem decodeUtf8_of_none (h : front? b rest = none) :
    decodeUtf8 (b :: rest) = replacement :: decodeUtf8 rest := by
  rw [decodeUtf8, h]

/-- Bytes may be cut before a byte that continues no character. -/
theorem decodeUtf8_append (hback : ∀ d ∈ back.head?, isContinuation d = false) :
    decodeUtf8 (front ++ back) = decodeUtf8 front ++ decodeUtf8 back := by
  fun_induction decodeUtf8 front with
  | case1 => rfl
  | case2 b rest c count hfront ih =>
    obtain ⟨-, -, -, hle, -⟩ := exists_lead_of_front? hfront
    rw [← front?_append hback] at hfront
    rw [List.cons_append, decodeUtf8_of_some hfront, List.drop_append_of_le_length hle, ih]
    rfl
  | case3 b rest hfront ih =>
    rw [← front?_append hback] at hfront
    rw [List.cons_append, decodeUtf8_of_none hfront, ih]
    rfl

def lineFeed : UInt8 := 0x0A

def carriageReturn : UInt8 := 0x0D

theorem isContinuation_of_lt (hb : b < 0x80) : isContinuation b = false := by
  rw [isContinuation, Bool.and_eq_false_iff]
  left
  simpa using hb

theorem lead?_of_lt (hb : b < 0x80) : lead? b = some (0, b.toNat, 0) := by
  rw [lead?, if_pos hb]

theorem front?_of_lt (hb : b < 0x80) : front? b rest = some (Char.ofNat b.toNat, 0) := by
  have hlt : b.toNat < 0x80 := hb
  have hvalid : (assemble b.toNat []).isValidChar := by
    left
    rw [assemble, List.foldl_nil]
    omega
  rw [front?_of_lead (lead?_of_lt hb), List.take_zero,
    if_pos ⟨List.length_nil, List.all_nil, Nat.zero_le _, hvalid⟩]
  rfl

theorem decodeUtf8_cons_of_lt (hb : b < 0x80) :
    decodeUtf8 (b :: rest) = Char.ofNat b.toNat :: decodeUtf8 rest :=
  decodeUtf8_of_some (front?_of_lt hb)

/-- A byte that stands for itself parts the bytes before it from those behind it. -/
theorem decodeUtf8_append_cons_of_lt (hb : b < 0x80) :
    decodeUtf8 (front ++ b :: back) =
      decodeUtf8 front ++ Char.ofNat b.toNat :: decodeUtf8 back := by
  have hback : ∀ d ∈ (b :: back).head?, isContinuation d = false := by
    rintro _ ⟨⟩
    exact isContinuation_of_lt hb
  rw [decodeUtf8_append hback, decodeUtf8_cons_of_lt hb]

theorem ofBytes_append_lineFeed (front back : List UInt8) :
    ofBytes (front ++ lineFeed :: back) = ofBytes front ++ "\n" ++ ofBytes back := by
  rw [ofBytes, decodeUtf8_append_cons_of_lt (by decide), ← String.toList_inj]
  simp only [ofBytes, String.toList_append, String.toList_ofList, List.append_assoc]
  rfl

/-- Only sequences of one byte stand for characters below 0x80. -/
theorem eq_of_front?_lt (h : front? b rest = some (c, count)) (hc : c.toNat < 0x80) :
    count = 0 ∧ b.toNat = c.toNat := by
  obtain ⟨payload, least, hlead, -, hchar, hleast⟩ := exists_lead_of_front? h
  by_cases hb : b < 0x80
  · rw [lead?_of_lt hb] at hlead
    cases hlead
    exact ⟨rfl, hchar.symm⟩
  · have hlong : 0x80 ≤ least := by
      rw [lead?, if_neg hb] at hlead
      repeat' split at hlead
      all_goals
        cases hlead
        try decide
    omega

theorem toNat_ofNat_of_lt (hb : b < 0x80) : (Char.ofNat b.toNat).toNat = b.toNat := by
  have hlt : b.toNat < 0x80 := hb
  apply toNat_ofNat_of_isValidChar
  left
  omega

theorem replacement_ge : 0x80 ≤ replacement.toNat := by decide

theorem mem_of_mem_decodeUtf8 (hb : b < 0x80) (h : Char.ofNat b.toNat ∈ decodeUtf8 front) :
    b ∈ front := by
  have hlt : b.toNat < 0x80 := hb
  have hchar := toNat_ofNat_of_lt hb
  fun_induction decodeUtf8 front with
  | case1 => cases h
  | case2 d rest c count hfront ih =>
    rcases List.mem_cons.1 h with hfirst | hlater
    · subst hfirst
      have heq := (eq_of_front?_lt hfront (by omega)).2
      rw [hchar] at heq
      rw [UInt8.toNat_inj.1 heq]
      exact List.mem_cons_self
    · exact List.mem_cons_of_mem _ (List.mem_of_mem_drop (ih hlater))
  | case3 d rest hfront ih =>
    rcases List.mem_cons.1 h with hfirst | hlater
    · have hge := replacement_ge
      rw [← hfirst, hchar] at hge
      omega
    · exact List.mem_cons_of_mem _ (ih hlater)

end ScriptAnalysis.Text
