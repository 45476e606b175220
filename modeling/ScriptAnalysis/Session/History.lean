import ScriptAnalysis.Text.Utf8

/-!
# Input lines and their history

Lines are read through a window of 4096 bytes. A line that does not fit is cut where the window
ends, and a carriage return at the cut goes to the next piece. A history keeps the latest thousand
entries byte for byte and takes none twice in a row; an old history is read up to the first line
that does not fit or is no well-formed text.
-/

namespace ScriptAnalysis

/-- One line of input and what follows it. -/
structure InputLine where
  bytes : List UInt8
  isCut : Bool
  rest : List UInt8

namespace InputLine

def window : Nat := 4096

def lineFeed : UInt8 := 0x0A

def carriageReturn : UInt8 := 0x0D

/-- A line without the carriage return before its end. -/
def withoutReturn (bytes : List UInt8) : List UInt8 :=
  if bytes.getLast? = some carriageReturn then bytes.dropLast else bytes

/-- The first line of an input, none at its end. -/
def read? (input : List UInt8) : Option InputLine :=
  let seen := input.take window
  let before := seen.takeWhile (· ≠ lineFeed)
  if input.isEmpty then none
  else if before.length < seen.length then
    some ⟨withoutReturn before, false, input.drop (before.length + 1)⟩
  else if seen.length < window then
    some ⟨seen, false, []⟩
  else
    let kept := withoutReturn seen
    some ⟨kept, true, input.drop kept.length⟩

theorem read?_shorter {input : List UInt8} {line : InputLine} (h : read? input = some line) :
    line.rest.length < input.length := by
  have ne : input.isEmpty = false := by
    cases input with
    | nil => simp [read?] at h
    | cons _ _ => rfl
  have pos : 0 < input.length := by
    cases input with
    | nil => simp at ne
    | cons _ _ => simp
  simp only [read?, ne, Bool.false_eq_true, if_false] at h
  split at h
  · cases h
    simp only [List.length_drop]
    omega
  · split at h
    · cases h
      simpa using pos
    · rename_i full
      cases h
      have seen : window ≤ (input.take window).length := Nat.le_of_not_lt full
      have kept : window ≤ (withoutReturn (input.take window)).length + 1 := by
        unfold withoutReturn
        split
        · simp only [List.length_dropLast]
          omega
        · omega
      simp only [List.length_drop]
      simp only [window] at kept ⊢
      omega

end InputLine

/-- All lines of an input. -/
def inputLines (input : List UInt8) : List InputLine :=
  match _h : InputLine.read? input with
  | none => []
  | some line => line :: inputLines line.rest
termination_by input.length
decreasing_by exact InputLine.read?_shorter (by assumption)

/-- The entries of a history, the latest last. -/
structure History where
  entries : List (List UInt8)

namespace History

def limit : Nat := 1000

def empty : History := ⟨[]⟩

/-- A history without its oldest entries beyond the limit. -/
def latest (entries : List (List UInt8)) : History := ⟨entries.drop (entries.length - limit)⟩

def ofBytes (bytes : List UInt8) : History :=
  let readable (line : InputLine) := !line.isCut && Text.isWellFormed line.bytes
  latest (((inputLines bytes).takeWhile readable).map InputLine.bytes)

def add (history : History) (entry : List UInt8) : History :=
  if history.entries.getLast? = some entry then history else latest (history.entries ++ [entry])

def bytes (history : History) : List UInt8 :=
  history.entries.flatMap (· ++ [InputLine.lineFeed])

end History

end ScriptAnalysis
