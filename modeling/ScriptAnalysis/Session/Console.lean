import ScriptAnalysis.Session.Command
import ScriptAnalysis.Session.History

/-!
# The console

A console feeds lines to a session. Lines are gathered until they no longer stop in the middle of a
construct; what they make up is a command or a piece of the program. Lines still gathered at the end
of the input are dropped.
-/

namespace ScriptAnalysis

structure Console where
  session : Session
  pending : List UInt8
  history : History

namespace Console

def initial (history : History) : Console := ⟨.initial, [], history⟩

/-- The bytes of some lines as one line, without the blanks around it. -/
def flatten (bytes : List UInt8) : List UInt8 :=
  let width (cs : List Char) := (String.ofList cs).utf8ByteSize
  let chars := Text.decodeUtf8 bytes
  let before := width (chars.takeWhile Text.isBlank)
  let behind := width (chars.reverse.takeWhile Text.isBlank)
  ((bytes.take (bytes.length - behind)).drop before).map fun b ↦
    if b = InputLine.lineFeed then 0x20 else b

/-- Runs a command or evaluates a piece of the program. -/
def submit (palette : Text.Palette) (c : Console) (code : String) : Console × Output × Bool :=
  if code.toList.head? = some ':' then
    let (session, output, done) := c.session.command palette code
    ({ c with session }, output, done)
  else
    let (session, answer) := c.session.eval code
    let output := match answer with
      | .error refusal => Output.ofStderr (palette.paint .red refusal.message ++ "\n")
      | .ok "" => .none
      | .ok text => .ofStdout (palette.paint .blue text ++ "\n")
    ({ c with session }, output, false)

/-- Takes one line: the console after it, what is written, and whether the session ends. -/
def feed (palette : Text.Palette) (c : Console) (line : List UInt8) : Console × Output × Bool :=
  let gathered := if c.pending.isEmpty then line else c.pending ++ InputLine.lineFeed :: line
  let text := Text.ofBytes gathered
  let code := Text.trim text
  if isIncomplete text then ({ c with pending := gathered }, .none, false)
  else if code = "" then ({ c with pending := [] }, .none, false)
  else
    let history := c.history.add (flatten gathered)
    submit palette { c with pending := [], history } code

/-- What is written when the input ends before the session does. -/
def farewell : Output := .ofStdout "\n"

def run (palette : Text.Palette) (c : Console) : List (List UInt8) → Console × Output
  | [] => (c, farewell)
  | line :: rest =>
    match c.feed palette line with
    | (c, output, true) => (c, output)
    | (c, output, false) =>
      let (c, later) := c.run palette rest
      (c, output ++ later)

end Console

end ScriptAnalysis
