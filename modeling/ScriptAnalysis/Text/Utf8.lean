/-!
# Decoding bytes

Bytes become characters by UTF-8. A byte that begins no well-formed sequence stands for one
replacement character, and decoding goes on at the byte after it. Overlong forms, surrogates and
numbers above the last code point are not well formed.
-/

namespace ScriptAnalysis.Text

def replacement : Char := '\ufffd'

def isContinuation (b : UInt8) : Bool := 0x80 ≤ b && b < 0xC0

/-- The code point with a lead's payload bits followed by six bits from each continuation byte. -/
def assemble (payload : Nat) (tail : List UInt8) : Nat :=
  tail.foldl (fun n b ↦ n * 64 + b.toNat % 64) payload

/-- The length of the sequence a lead byte opens, less the lead; its payload; the least code point
that needs so many bytes. -/
def lead? (b : UInt8) : Option (Nat × Nat × Nat) :=
  if b < 0x80 then some (0, b.toNat, 0)
  else if b < 0xC0 then none
  else if b < 0xE0 then some (1, b.toNat % 32, 0x80)
  else if b < 0xF0 then some (2, b.toNat % 16, 0x800)
  else if b < 0xF8 then some (3, b.toNat % 8, 0x10000)
  else none

/-- The character at the front of a sequence of bytes, and how many bytes follow its first. -/
def front? (b : UInt8) (rest : List UInt8) : Option (Char × Nat) := do
  let (count, payload, least) ← lead? b
  let tail := rest.take count
  let code := assemble payload tail
  if tail.length = count ∧ tail.all isContinuation ∧ least ≤ code ∧ code.isValidChar then
    some (Char.ofNat code, count)
  else
    none

def decodeUtf8 : List UInt8 → List Char
  | [] => []
  | b :: rest =>
    match front? b rest with
    | some (c, count) => c :: decodeUtf8 (rest.drop count)
    | none => replacement :: decodeUtf8 rest
termination_by bytes => bytes.length

/-- The text that some bytes stand for. -/
def ofBytes (bytes : List UInt8) : String := String.ofList (decodeUtf8 bytes)

def isWellFormed (bytes : List UInt8) : Bool := (ofBytes bytes).toUTF8.toList = bytes

end ScriptAnalysis.Text
