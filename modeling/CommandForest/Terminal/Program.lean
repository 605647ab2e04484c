import CommandForest.Outline.Json
import CommandForest.Outline.Source
import CommandForest.Outline.Yaml
import CommandForest.Terminal.Options
import CommandForest.Terminal.Setup

/-!
# CommandForest.Terminal.Program

The program as a function from its arguments, its files and its input to what it prints:

* it ends with code 2 on wrong arguments, with code 1 and a report on failure, and with 0 otherwise;
* messages to the sender are printed one after the other;
* the interactive task reads lines until the input ends or a line says `exit` or `quit`.
-/

namespace CommandForest.Terminal

/-! ## Printing -/

/-- Lines with a line feed after each. -/
def printed (lines : List String) : String :=
  String.ofList (lines.flatMap fun line => line.toList ++ ['\n'])

/-- What the program leaves behind. -/
structure Result where
  code : Nat
  output : String := ""
  error : Option String := none
deriving DecidableEq

/-- A cause below the report, with a number if there are several. -/
def causeLines (numbered : Bool) (n : Nat) (cause : String) : String :=
  let margin := if numbered then "       " else "    "
  let head :=
    if numbered then
      let digits := toString n
      String.ofList (List.replicate (5 - digits.length) ' ') ++ digits ++ ": "
    else
      margin
  head ++ Text.replaceAll "\n" ("\n" ++ margin) cause

/-- The report of a failure, its causes below it. -/
def failureReport : List String → String
  | [] => "Error: "
  | [message] => "Error: " ++ message
  | message :: causes =>
    let numbered := 1 < causes.length
    "Error: " ++ message ++ "\n\nCaused by:\n" ++
      Text.joined "\n" (causes.zipIdx.map fun (cause, n) => causeLines numbered n cause)

/-- A failure with its causes. -/
def Result.failure (chain : List String) (output : String) : Result where
  code := 1
  output := output
  error := some (failureReport chain)

/-! ## The interactive task -/

/-- The text before each line that is read. -/
def promptText : String := "> "

/-- What one line prints, and the session afterwards, which is none when the line ends it. -/
def Session.step (s : Session) (sender : Sender) (row : List Char) : String × Option Session :=
  let line := (row.reverse.dropWhile fun c => c == '\r' || c == '\n').reverse
  let bare := String.ofList (Text.trim line)
  if bare = "" then ("", some s)
  else if bare = "exit" || bare = "quit" then ("", none)
  else
    match line with
    | '?' :: partialLine =>
      let (candidates, s) := s.complete sender (String.ofList partialLine)
      match candidates with
      | some found => (Text.joined "  " found ++ "\n", some s)
      | none => ("(no completions)\n", some s)
    | _ =>
      let (outcome, s) := s.dispatch sender (String.ofList line)
      let unknown :=
        if outcome.handled then ""
        else "Unknown command. Labels: " ++ Text.joined ", " s.labels.names ++ "\n"
      (printed outcome.messages ++ unknown, some s)

/-- What the lines of an input print, with the prompt before each. -/
def Session.interact (s : Session) (sender : Sender) : List (List Char) → String
  | [] => promptText
  | row :: rows =>
    match s.step sender row with
    | (output, some s) => promptText ++ output ++ s.interact sender rows
    | (output, none) => promptText ++ output

/-! ## The tasks -/

/-- A forest in a format. -/
def writeForest (f : Forest) : Format → String
  | .source => Outline.sourceOfAll f.outlines
  | .json => Outline.jsonOfAll f.outlines ++ "\n"
  | .yaml => Outline.yamlOfAll f.outlines

/-- Does a task in a session. -/
def Session.perform (s : Session) (sender : Sender) (input : String) : Task → Result
  | .run words =>
    let (outcome, _) := s.dispatch sender (Text.joined " " words)
    let output := printed outcome.messages
    if outcome.handled then { code := 0, output := output }
    else .failure ["unknown command '" ++ words.headD "" ++ "'"] output
  | .complete line =>
    let (candidates, _) := s.complete sender line
    { code := 0, output := printed (candidates.getD []) }
  | .tree format => { code := 0, output := writeForest s.forest format }
  | .repl => { code := 0, output := s.interact sender (Text.lines input.toList) }

/-- The sender that the settings describe. -/
def Settings.sender (g : Settings) : Sender :=
  .ofGrants (if g.console then .console else .player) g.grants

/-- The setup that the settings describe, with the files that they name. -/
def Settings.setup (g : Settings) (fetch : String → File) (path : String) : Setup where
  definition := fetch path
  messages := g.messages.map fetch
  qualifier := g.qualifier.getD "cmdtree"
  choices := g.choices

/-- The paths of the files that the arguments or the environment name. -/
def namedFiles (args : List String) (fromEnvironment : Option String) : List String :=
  match readArguments args with
  | .error _ => []
  | .ok (settings, _) =>
    (settings.file <|> fromEnvironment).toList ++ settings.messages.toList

/-- Why no command can be run without a definition. -/
def noFile : String := "no command file given, use --file or set CMDTREE_FILE"

/-- The name and the version of the program. -/
def versionText : String := "cmdtree 0.1.0"

/-- What the arguments come to: an explanation of how the program is used, an end at once, or a task
in a session. -/
inductive Plan
  | explained (code : Nat)
  | finished (result : Result)
  | ready (session : Session) (sender : Sender) (task : Task)

/-- Reads the arguments and sets the session up. A file comes from the arguments, or else from the
environment. -/
def prepare (args : List String) (fromEnvironment : Option String) (fetch : String → File) : Plan :=
  match readArguments args with
  | .error .usage => .explained 2
  | .error .help => .explained 0
  | .error .version => .finished { code := 0, output := printed [versionText] }
  | .ok (settings, task) =>
    match settings.file <|> fromEnvironment with
    | none => .finished (.failure [noFile] "")
    | some path =>
      match (settings.setup fetch path).load with
      | .error e => .finished (.failure e.chain "")
      | .ok (session, _) => .ready session settings.sender task

/-- Carries a plan out on an input. -/
def Plan.run (input : String) : Plan → Result
  | explained code => { code := code }
  | finished result => result
  | ready session sender task => session.perform sender input task

/-- Runs the program. -/
def runProgram (args : List String) (fromEnvironment : Option String) (fetch : String → File)
    (input : String) : Result :=
  (prepare args fromEnvironment fetch).run input

end CommandForest.Terminal
