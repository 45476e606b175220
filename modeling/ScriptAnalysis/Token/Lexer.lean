import ScriptAnalysis.Text.Blank
import ScriptAnalysis.Text.Letter
import ScriptAnalysis.Token

/-!
# Reading tokens

A source is cut into pieces from its front: blanks, comments and lexemes, each as long as it can be.
A lexeme becomes a token; blanks and comments only move the place. Two slashes open a comment that
runs to the end of its line.
-/

namespace ScriptAnalysis.Lexer

open Text

def isDigit (c : Char) : Bool := '0' ≤ c && c ≤ '9'

def isWordStart (c : Char) : Bool := c = '_' || isLetter c

def isWordPart (c : Char) : Bool := isWordStart c || isDigit c

/-- How many characters of a string literal follow its opening quote, and whether the last of them
closes it. A backslash takes the next character with it, but no literal passes the end of its line. -/
def literalTail : List Char → Nat × Bool
  | [] => (0, false)
  | '\n' :: _ => (0, false)
  | '"' :: _ => (1, true)
  | ['\\'] => (1, false)
  | '\\' :: '\n' :: _ => (1, false)
  | '\\' :: _ :: rest =>
    let (count, closed) := literalTail rest
    (count + 2, closed)
  | _ :: rest =>
    let (count, closed) := literalTail rest
    (count + 1, closed)

/-- What the piece that begins with `c` is, nothing for blanks and comments, and how many of the
characters after `c` belong to it. -/
def piece (c : Char) (rest : List Char) : Option Kind × Nat :=
  if isBlank c then
    (none, 0)
  else if isWordStart c then
    let part := rest.takeWhile isWordPart
    (some (Kind.ofWord (String.ofList (c :: part))), part.length)
  else if isDigit c then
    (some .int, (rest.takeWhile isDigit).length)
  else if c = '"' then
    let (count, closed) := literalTail rest
    (some (if closed then .string else .illegal), count)
  else if c = '/' ∧ rest.head? = some '/' then
    (none, (rest.takeWhile (· ≠ '\n')).length)
  else
    match if rest.head? = some '=' then Kind.ofSymbolEquals? c else none with
    | some kind => (some kind, 1)
    | none => (some (Kind.ofSymbol c), 0)

/-- The line and column after reading some characters from a line and column on. -/
def advance : Nat × Nat → List Char → Nat × Nat
  | here, [] => here
  | (line, col), c :: rest => advance (if c = '\n' then (line + 1, 1) else (line, col + 1)) rest

/-- The tokens of a source whose first character stands at the given line and column. -/
def scan (here : Nat × Nat) : List Char → List Token
  | [] => []
  | c :: rest =>
    let (kind?, count) := piece c rest
    let lexeme := c :: rest.take count
    let later := scan (advance here lexeme) (rest.drop count)
    match kind? with
    | some kind => ⟨kind, String.ofList lexeme, here.1, here.2⟩ :: later
    | none => later
termination_by source => source.length

/-- The tokens of a source, without the one that marks its end. -/
def tokens (source : String) : List Token := scan (1, 1) source.toList

/-- The mark at the end of a source. -/
def endMark (source : String) : Token :=
  let (line, col) := advance (1, 1) source.toList
  ⟨.eof, "", line, col⟩

/-- The tokens of a source up to and including its end. -/
def allTokens (source : String) : List Token := tokens source ++ [endMark source]

/-- The kind of the first token of a source. -/
def firstKind (source : String) : Kind := ((tokens source).headD (endMark source)).kind

end ScriptAnalysis.Lexer
