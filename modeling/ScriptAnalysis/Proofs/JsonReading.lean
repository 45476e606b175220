import Mathlib.Algebra.Field.Rat
import ScriptAnalysis.Text.Json

/-!
# JSON texts are read

A reader of JSON texts, after the grammar of the format and without regard to how this library
writes them: blanks between symbols, every escape a string can hold, numbers with fractions and
exponents. Each function reads one part from the front of a text and answers it with the characters
that are left. A result records that fewer characters are left than a bound, which is why reading
ends.
-/

namespace ScriptAnalysis.Text.JsonReader

/-- What a text can stand for. A number is known by its exact value, an object by its members in the
order of the text. -/
inductive Value where
  | null
  | bool (value : Bool)
  | number (value : ℚ)
  | string (value : String)
  | array (items : List Value)
  | object (members : List (String × Value))

structure Taken (α : Type) (bound : Nat) where
  value : α
  rest : List Char
  shorter : rest.length < bound

abbrev Reading (α : Type) (bound : Nat) := Option (Taken α bound)

def isBlank (c : Char) : Bool := c = ' ' || c = '\t' || c = '\n' || c = '\r'

/-- The first character that is no blank. -/
def symbol (cs : List Char) : Reading Char cs.length :=
  match cs with
  | [] => none
  | c :: rest =>
    if isBlank c then do
      let ⟨found, rest', h⟩ ← symbol rest
      return ⟨found, rest', by simp; omega⟩
    else
      some ⟨c, rest, by simp⟩

/-- A symbol that has to be `c`. -/
def expect (c : Char) (cs : List Char) : Reading Char cs.length := do
  let taken ← symbol cs
  if taken.value = c then return taken else none

def hexValue? (c : Char) : Option Nat :=
  if c.isDigit then some (c.toNat - '0'.toNat)
  else if 'a' ≤ c ∧ c ≤ 'f' then some (c.toNat - 'a'.toNat + 10)
  else if 'A' ≤ c ∧ c ≤ 'F' then some (c.toNat - 'A'.toNat + 10)
  else none

/-- The number of four hexadecimal digits. -/
def codeUnit (cs : List Char) : Reading Nat cs.length :=
  match cs with
  | a :: b :: c :: d :: rest => do
    let n ← [a, b, c, d].foldlM (fun n digit ↦ (16 * n + ·) <$> hexValue? digit) 0
    return ⟨n, rest, by simp; omega⟩
  | _ => none

/-- The character of a numeric escape, after `\u`. Characters beyond the first 65536 are written as
two escapes, each of which alone stands for no character. -/
def numericEscape (cs : List Char) : Reading Char cs.length := do
  let ⟨first, rest, h⟩ ← codeUnit cs
  if 0xd800 ≤ first ∧ first < 0xdc00 then
    match rest, h with
    | '\\' :: 'u' :: more, h => do
      let ⟨second, rest', h'⟩ ← codeUnit more
      if 0xdc00 ≤ second ∧ second < 0xe000 then
        let c := Char.ofNat (0x10000 + 0x400 * (first - 0xd800) + (second - 0xdc00))
        return ⟨c, rest', by simp at h; omega⟩
      else none
    | _, _ => none
  else if 0xdc00 ≤ first ∧ first < 0xe000 then none
  else return ⟨Char.ofNat first, rest, h⟩

/-- What a character stands for after a backslash. -/
def plainEscape? : Char → Option Char
  | '"' => some '"'
  | '\\' => some '\\'
  | '/' => some '/'
  | 'b' => some '\x08'
  | 'f' => some '\x0c'
  | 'n' => some '\n'
  | 'r' => some '\r'
  | 't' => some '\t'
  | _ => none

/-- The character of an escape, after the backslash. -/
def escape (cs : List Char) : Reading Char cs.length :=
  match cs with
  | [] => none
  | 'u' :: rest => do
    let ⟨c, rest', h⟩ ← numericEscape rest
    return ⟨c, rest', by simp; omega⟩
  | c :: rest => do
    let meant ← plainEscape? c
    return ⟨meant, rest, by simp⟩

/-- The characters of a string, after the opening quotation mark, up to the closing one. -/
def stringTail (cs : List Char) : Reading (List Char) cs.length :=
  match cs with
  | [] => none
  | '"' :: rest => some ⟨[], rest, by simp⟩
  | '\\' :: rest => do
    let ⟨c, rest₁, h₁⟩ ← escape rest
    let ⟨others, rest₂, h₂⟩ ← stringTail rest₁
    return ⟨c :: others, rest₂, by simp; omega⟩
  | c :: rest =>
    if c.toNat < 0x20 then none
    else do
      let ⟨others, rest', h⟩ ← stringTail rest
      return ⟨c :: others, rest', by simp; omega⟩
termination_by cs.length
decreasing_by all_goals simp; try omega

def string (cs : List Char) : Reading String cs.length := do
  let ⟨_, rest, h⟩ ← expect '"' cs
  let ⟨content, rest', h'⟩ ← stringTail rest
  return ⟨String.ofList content, rest', by omega⟩

/-- One or more digits. -/
def digits (cs : List Char) : Reading (List Char) cs.length :=
  match cs with
  | [] => none
  | c :: rest =>
    if c.isDigit then
      have h := (rest.dropWhile_sublist Char.isDigit).length_le
      some ⟨c :: rest.takeWhile Char.isDigit, rest.dropWhile Char.isDigit, Nat.lt_succ_of_le h⟩
    else none

/-- The digits of a whole number. Only zero itself begins with a zero. -/
def wholePart (cs : List Char) : Reading (List Char) cs.length := do
  let taken ← digits cs
  if taken.value.head? = some '0' ∧ taken.value ≠ ['0'] then none else return taken

def fraction (cs : List Char) : Reading (List Char) (cs.length + 1) :=
  match cs with
  | '.' :: rest => do
    let ⟨ds, rest', h⟩ ← digits rest
    return ⟨ds, rest', by rw [List.length_cons]; omega⟩
  | rest => some ⟨[], rest, Nat.lt_succ_self _⟩

/-- A number of digits with a sign before it, or none. -/
def signed (cs : List Char) : Reading Int cs.length :=
  match cs with
  | '-' :: rest => do
    let ⟨ds, rest', h⟩ ← digits rest
    return ⟨-Nat.ofDigitChars 10 ds 0, rest', by simp; omega⟩
  | '+' :: rest => do
    let ⟨ds, rest', h⟩ ← digits rest
    return ⟨Nat.ofDigitChars 10 ds 0, rest', by simp; omega⟩
  | rest => do
    let ⟨ds, rest', h⟩ ← digits rest
    return ⟨Nat.ofDigitChars 10 ds 0, rest', h⟩

def exponent (cs : List Char) : Reading Int (cs.length + 1) :=
  match cs with
  | 'e' :: rest | 'E' :: rest => do
    let ⟨n, rest', h⟩ ← signed rest
    return ⟨n, rest', by rw [List.length_cons]; omega⟩
  | rest => some ⟨0, rest, Nat.lt_succ_self _⟩

/-- A number without a sign. -/
def magnitude (cs : List Char) : Reading ℚ cs.length := do
  let ⟨whole, rest₁, h₁⟩ ← wholePart cs
  let ⟨part, rest₂, h₂⟩ ← fraction rest₁
  let ⟨power, rest₃, h₃⟩ ← exponent rest₂
  let n : ℚ := Nat.ofDigitChars 10 (whole ++ part) 0
  return ⟨n * 10 ^ (power - part.length), rest₃, by omega⟩

def number (cs : List Char) : Reading ℚ cs.length :=
  match cs with
  | '-' :: rest => do
    let ⟨n, rest', h⟩ ← magnitude rest
    return ⟨-n, rest', by simp; omega⟩
  | rest => magnitude rest

/-- The rest of a word that stands for `value`. -/
def word (letters : List Char) (value : Value) (cs : List Char) : Reading Value (cs.length + 1) :=
  if letters.isPrefixOf cs then
    some ⟨value, cs.drop letters.length, by rw [List.length_drop]; omega⟩
  else none

mutual

def value (cs : List Char) : Reading Value cs.length := do
  let ⟨c, rest, h⟩ ← symbol cs
  match c with
  | '"' =>
    let ⟨content, rest', h'⟩ ← stringTail rest
    return ⟨.string (String.ofList content), rest', by omega⟩
  | '[' =>
    let ⟨found, rest', h'⟩ ← items rest
    return ⟨.array found, rest', by omega⟩
  | '{' =>
    let ⟨found, rest', h'⟩ ← members rest
    return ⟨.object found, rest', by omega⟩
  | 'n' =>
    let ⟨found, rest', h'⟩ ← word ['u', 'l', 'l'] .null rest
    return ⟨found, rest', by omega⟩
  | 't' =>
    let ⟨found, rest', h'⟩ ← word ['r', 'u', 'e'] (.bool true) rest
    return ⟨found, rest', by omega⟩
  | 'f' =>
    let ⟨found, rest', h'⟩ ← word ['a', 'l', 's', 'e'] (.bool false) rest
    return ⟨found, rest', by omega⟩
  | c =>
    let ⟨n, rest', h'⟩ ← number (c :: rest)
    return ⟨.number n, rest', by simp at h'; omega⟩
termination_by 4 * cs.length

/-- The items of an array after its opening bracket, and the closing one. -/
def items (cs : List Char) : Reading (List Value) cs.length := do
  let ⟨c, rest, h⟩ ← symbol cs
  if c = ']' then return ⟨[], rest, h⟩ else itemList cs
termination_by 4 * cs.length + 2

def itemList (cs : List Char) : Reading (List Value) cs.length := do
  let ⟨first, rest₁, h₁⟩ ← value cs
  let ⟨c, rest₂, h₂⟩ ← symbol rest₁
  match c with
  | ',' =>
    let ⟨others, rest₃, h₃⟩ ← itemList rest₂
    return ⟨first :: others, rest₃, by omega⟩
  | ']' => return ⟨[first], rest₂, by omega⟩
  | _ => none
termination_by 4 * cs.length + 1

/-- The members of an object after its opening brace, and the closing one. -/
def members (cs : List Char) : Reading (List (String × Value)) cs.length := do
  let ⟨c, rest, h⟩ ← symbol cs
  if c = '}' then return ⟨[], rest, h⟩ else memberList cs
termination_by 4 * cs.length + 2

def memberList (cs : List Char) : Reading (List (String × Value)) cs.length := do
  let ⟨first, rest₁, h₁⟩ ← member cs
  let ⟨c, rest₂, h₂⟩ ← symbol rest₁
  match c with
  | ',' =>
    let ⟨others, rest₃, h₃⟩ ← memberList rest₂
    return ⟨first :: others, rest₃, by omega⟩
  | '}' => return ⟨[first], rest₂, by omega⟩
  | _ => none
termination_by 4 * cs.length + 1

def member (cs : List Char) : Reading (String × Value) cs.length := do
  let ⟨name, rest₁, h₁⟩ ← string cs
  let ⟨_, rest₂, h₂⟩ ← expect ':' rest₁
  let ⟨found, rest₃, h₃⟩ ← value rest₂
  return ⟨(name, found), rest₃, by omega⟩
termination_by 4 * cs.length

end

/-- The value of a text, if it is one value with nothing but blanks around it. -/
def decode? (text : String) : Option Value := do
  let ⟨v, rest, _⟩ ← value text.toList
  if rest.all isBlank then some v else none

end ScriptAnalysis.Text.JsonReader
