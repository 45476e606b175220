import ScriptAnalysis.Command.Run

/-!
# The program

What a command may need is read from the machine before it runs, and what it answers is written
after it. Only a session at a terminal is answered line by line.
-/

namespace ScriptAnalysis.Main

def readBytes (path : String) : IO (Except FileError (List UInt8)) := do
  try
    let bytes ← IO.FS.readBinFile path
    return .ok bytes.toList
  catch
    | .inappropriateType _ 21 _ => return .error .isDirectory
    | .inappropriateType _ _ _ => return .error .notDirectory
    | .invalidArgument _ _ _ => return .error .invalidName
    | _ => return .error .notFound

/-- The disk as far as a command with these arguments can look at it. -/
def readDisk (args : List String) : IO Disk := do
  let paths := args.flatMap fun path ↦ [path, path ++ SourceUnit.extension]
  let found ← paths.mapM fun path ↦ return (path, (← readBytes path).map Text.ofBytes)
  return ⟨fun path ↦ (found.lookup path).getD (.error .notFound)⟩

partial def readInput (input : IO.FS.Stream) (seen : ByteArray) : IO (List UInt8) := do
  let more ← input.read 4096
  if more.isEmpty then return seen.toList else readInput input (seen ++ more)

def write (output : Output) : IO Unit := do
  let stdout ← IO.getStdout
  stdout.putStr output.stdout
  stdout.flush
  (← IO.getStderr).putStr output.stderr

/-- Answers the lines of a terminal until they or the session end. -/
partial def converse (palette : Text.Palette) (console : Console) : IO Console := do
  write (.ofStdout (if console.pending.isEmpty then "nim> " else "...  "))
  let line ← (← IO.getStdin).getLine
  match InputLine.read? line.toUTF8.toList with
  | none =>
    write Console.farewell
    return console
  | some line =>
    let (console, output, done) := console.feed palette line.bytes
    write output
    if done then return console else converse palette console

def historyPath : IO String := do
  let home ← IO.getEnv "HOME"
  return home.getD "" ++ "/.nimble_history"

def run (args : List String) : IO Outcome := do
  let palette : Text.Palette := (← IO.getEnv "NO_COLOR").getD "" = ""
  let platform := "Lean 4"
  let disk ← readDisk args
  if args = ["repl"] then
    let history := (← readBytes (← historyPath)).toOption
    let stdin ← IO.getStdin
    if ← stdin.isTty then
      write (.ofStdout (Command.banner platform))
      let console ← converse palette (Command.startConsole history)
      return ⟨0, .none, some console.history.bytes⟩
    else
      return Command.run ⟨disk, palette, platform, ← readInput stdin .empty, history⟩ args
  else
    return Command.run ⟨disk, palette, platform, [], none⟩ args

/-- Runs a command, writes what it answers and gives its status. -/
def execute (args : List String) : IO UInt32 := do
  let outcome ← run args
  write outcome.output
  if let some history := outcome.history then
    try
      IO.FS.writeBinFile (← historyPath) ⟨history.toArray⟩
    catch _ =>
      pure ()
  return outcome.status.toUInt32

end ScriptAnalysis.Main

def main (args : List String) : IO UInt32 := ScriptAnalysis.Main.execute args
