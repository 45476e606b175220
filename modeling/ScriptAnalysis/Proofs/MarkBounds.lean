import ScriptAnalysis.Proofs.SnippetMarks

/-!
# Marks stay in their lines

A mark is drawn by cutting the line before two columns, widening the tabs of what is left and
repeating characters. Cutting outside the line and repeating less than no times are faults. Columns
are words of 64 bits, also those on no line, and whatever two of them are given, no step is a fault:
the mark lies in the widened line, or it is a single character right behind it.
-/

namespace ScriptAnalysis.Snippet

/-- The first characters of a line; nothing where it does not have so many. -/
def cut? (line : List Char) (count : Int) : Option (List Char) :=
  if 0 ≤ count ∧ count ≤ line.length then some (line.take count.toNat) else none

/-- A character over and over; nothing for less than no times. -/
def repeat? (count : Int) (c : Char) : Option (List Char) :=
  if 0 ≤ count then some (List.replicate count.toNat c) else none

/-- A line with four blanks for each tab. -/
def widened (line : List Char) : List Char :=
  line.flatMap fun c ↦ if c = '\t' then [' ', ' ', ' ', ' '] else [c]

/-- The bound from below is tested first, so it wins where it lies above the other. -/
def clamp (n low high : Int) : Int := if n < low then low else if high < n then high else n

/-- The widened characters of a line before a column; nothing if the line is cut outside it. -/
def widenedBefore? (line : List Char) (col : Int64) : Option (List Char) :=
  (cut? line (clamp (col - 1).toInt 0 line.length)).map widened

/-- Where a mark ends; nothing if there is a fault on the way. -/
def drawnEnd? (line : List Char) (start : Int) (col stopCol : Int64) : Option Int :=
  if 0 < stopCol ∧ col < stopCol then
    (widenedBefore? line stopCol).map fun before ↦
      clamp before.length (start + 1) (widened line).length
  else if start < (widened line).length then
    some (start + 1)
  else
    some start

/-- What a mark of some length has behind its first character; nothing if there is a fault. -/
def drawnTail? (length : Int) : Option (List Char) :=
  if 1 < length then repeat? (length - 1) '~' else some []

/-- A mark and its label; nothing if there is a fault on the way. -/
def drawn? (line : List Char) (col stopCol : Int64) (label : String) : Option (List Char) := do
  let start := ((← widenedBefore? line col).length : Int)
  let stop ← drawnEnd? line start col stopCol
  let lead ← repeat? start ' '
  let tail ← drawnTail? (stop - start)
  return lead ++ '^' :: (tail ++ caption label)

theorem length_widened (line : List Char) : (widened line).length = width line := by
  induction line with
  | nil => rfl
  | cons c line ih =>
    have hcons : widened (c :: line) =
        (if c = '\t' then [' ', ' ', ' ', ' '] else [c]) ++ widened line := List.flatMap_cons
    rw [hcons, List.length_append, ih, width]
    split <;> rfl

/-- The column before the least one is the greatest. -/
theorem toInt_sub_one (col : Int64) : (col - 1).toInt = columnBefore col.toInt := by
  have hone : (1 : Int64).toInt = 1 := by decide
  have hmin : Int64.minValue.toInt = -2 ^ 63 := by decide
  have hleast := col.le_toInt
  have hgreatest := col.toInt_lt
  rw [Int64.toInt_sub, hone, columnBefore]
  split
  · next hcol =>
    rw [hcol]
    decide
  · next hcol =>
    rw [hmin] at hcol
    exact Int.bmod_eq_of_le (by omega) (by omega)

theorem cut?_clamp (line : List Char) (n : Int) :
    cut? line (clamp n 0 line.length) = some (line.take (min n.toNat line.length)) := by
  have hcount : clamp n 0 line.length = (min n.toNat line.length : Nat) := by
    unfold clamp
    split
    · omega
    · split <;> omega
  rw [hcount, cut?, if_pos (by omega), Int.toNat_natCast]

/-- A line is never cut outside it. -/
theorem exists_widenedBefore? (line : List Char) (col : Int64) :
    ∃ before, widenedBefore? line col = some before ∧
      before.length = widthBefore line col.toInt := by
  rw [widenedBefore?, cut?_clamp, toInt_sub_one]
  exact ⟨_, rfl, length_widened _⟩

theorem widthBefore_le (line : List Char) (col : Int) : widthBefore line col ≤ width line := by
  calc
    widthBefore line col ≤
        widthBefore line col + width (line.drop (charsBefore line.length col)) :=
      Nat.le_add_right _ _
    _ = width (line.take _ ++ line.drop _) := (width_append _ _).symm
    _ = width line := by rw [List.take_append_drop]

/-- A mark ends in the widened line, or right behind it if it begins there. -/
theorem markEnd_bounds (line : List Char) {start : Nat} (hstart : start ≤ width line)
    (col stopCol : Int) :
    start < markEnd line start col stopCol ∧ markEnd line start col stopCol ≤ width line ∨
      start = width line ∧ markEnd line start col stopCol ≤ start + 1 := by
  unfold markEnd
  split
  · dsimp only
    split <;> omega
  · split <;> omega

theorem clamp_succ (stop start wide : Nat) :
    clamp stop (start + 1) wide =
      ((if stop < start + 1 then start + 1 else min stop wide : Nat) : Int) := by
  by_cases hstop : stop < start + 1
  · rw [clamp, if_pos (by omega), if_pos hstop]
    rfl
  · rw [clamp, if_neg (by omega), if_neg hstop]
    split <;> omega

theorem drawnEnd?_eq (line : List Char) (start : Nat) (col stopCol : Int64) :
    drawnEnd? line start col stopCol =
      some (markEnd line start col.toInt stopCol.toInt : Int) := by
  have hcols : (0 < stopCol ∧ col < stopCol) ↔
      (0 < stopCol.toInt ∧ col.toInt < stopCol.toInt) := by
    rw [Int64.lt_iff_toInt_lt, Int64.lt_iff_toInt_lt]
    rfl
  obtain ⟨before, hbefore, hlength⟩ := exists_widenedBefore? line stopCol
  rw [drawnEnd?, markEnd, hbefore, Option.map_some, hlength, length_widened, clamp_succ]
  simp only [hcols, Int.ofNat_lt]
  split
  · rfl
  · split <;> rfl

theorem toList_underline (line : List Char) (col stopCol : Int) (label : String) :
    (underline line col stopCol label).toList =
      List.replicate (widthBefore line col) ' ' ++ '^' ::
        (List.replicate (markEnd line (widthBefore line col) col stopCol - widthBefore line col - 1)
          '~' ++ caption label) := by
  simp only [underline, Text.spaces, caption, String.toList_append, String.toList_ofList]
  simp

theorem repeat?_natCast (count : Nat) (c : Char) :
    repeat? count c = some (List.replicate count c) := by
  rw [repeat?, if_pos (Int.natCast_nonneg count), Int.toNat_natCast]

theorem drawnTail?_eq (start stop : Nat) :
    drawnTail? (stop - start) = some (List.replicate (stop - start - 1) '~') := by
  unfold drawnTail?
  split
  · have hcount : (stop : Int) - start - 1 = (stop - start - 1 : Nat) := by omega
    rw [hcount, repeat?_natCast]
  · have hcount : stop - start - 1 = 0 := by omega
    rw [hcount, List.replicate_zero]

theorem drawn?_eq (line : List Char) (col stopCol : Int64) (label : String) :
    drawn? line col stopCol label =
      some (underline line col.toInt stopCol.toInt label).toList := by
  obtain ⟨before, hbefore, hlength⟩ := exists_widenedBefore? line col
  rw [toList_underline, ← hlength, drawn?]
  simp only [hbefore, drawnEnd?_eq, repeat?_natCast, drawnTail?_eq, Option.bind_eq_bind,
    Option.bind_some]
  rfl

/-- Whatever the columns are, drawing a mark cuts nothing outside the line and repeats nothing less
than no times, and what it draws is the mark that is shown. As many blanks at most come before the
mark as there are characters in the widened line, and the mark itself lies within these characters
or is a single one right behind the last of them. -/
theorem mark_within_line (line : List Char) (col stopCol : Int64) (label : String) :
    drawn? line col stopCol label = some (underline line col.toInt stopCol.toInt label).toList ∧
    ∃ lead tail, (underline line col.toInt stopCol.toInt label).toList =
        List.replicate lead ' ' ++ '^' :: (List.replicate tail '~' ++ caption label) ∧
      lead ≤ (widened line).length ∧
      (lead + 1 + tail ≤ (widened line).length ∨ lead = (widened line).length ∧ tail = 0) := by
  have hstart := widthBefore_le line col.toInt
  refine ⟨drawn?_eq line col stopCol label, _, _, toList_underline line _ _ label, ?_⟩
  rw [length_widened]
  rcases markEnd_bounds line hstart col.toInt stopCol.toInt with hin | hend
  · omega
  · omega

/-- The greatest column comes before the least, so the mark stands behind the line. -/
example : drawn? ['\t', 'x'] Int64.minValue 2 "" = some "     ^".toList := by decide

end ScriptAnalysis.Snippet
