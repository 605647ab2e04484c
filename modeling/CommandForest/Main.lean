import CommandForest.Terminal.Program

/-!
# CommandForest.Main

The command line: reads the files that the arguments name, prints what the program answers, and
reads lines for as long as the interactive task goes on.
-/

open CommandForest.Terminal

/-- How the program is used. -/
def usageText : String :=
  "usage: cmdtree --file FILE [--prefix P] [--console] [--grant PERMISSION]...\n" ++
    "         [--messages FILE] [--choices NAME=VALUES]...\n" ++
    "         run WORDS... | complete LINE | tree [--format FORMAT] | repl"

/-- A file with its bytes, or the reason why it cannot be read. -/
def fetchFile (path : String) : IO File := do
  try
    return ⟨path, .ok (← IO.FS.readBinFile path)⟩
  catch e =>
    return ⟨path, .error (toString e)⟩

/-- Reads lines and answers each, until the input ends or a line ends the session. -/
partial def converse (session : Session) (sender : CommandForest.Sender) : IO Unit := do
  let out ← IO.getStdout
  out.putStr promptText
  out.flush
  let line ← (← IO.getStdin).getLine
  if !line.isEmpty then
    let (answer, later) := session.step sender line.toList
    out.putStr answer
    match later with
    | some session => converse session sender
    | none => return ()

/-- Prints a result and gives its code. -/
def finish (result : Result) : IO UInt32 := do
  (← IO.getStdout).putStr result.output
  if let some report := result.error then (← IO.getStderr).putStrLn report
  return result.code.toUInt32

/-- Runs the program on its arguments. -/
def main (args : List String) : IO UInt32 := do
  let fromEnvironment ← IO.getEnv "CMDTREE_FILE"
  let files ← (namedFiles args fromEnvironment).mapM fetchFile
  let fetch (path : String) : File :=
    (files.find? fun file => file.path == path).getD ⟨path, .error "not read"⟩
  match prepare args fromEnvironment fetch with
  | .ready session sender .repl =>
    converse session sender
    return 0
  | .explained code =>
    (← if code == 0 then IO.getStdout else IO.getStderr).putStrLn usageText
    return code.toUInt32
  | plan => finish (plan.run "")
