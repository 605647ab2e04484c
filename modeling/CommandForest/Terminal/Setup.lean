import CommandForest.Choices
import CommandForest.Labels
import CommandForest.Load
import CommandForest.Messages.Yaml

/-!
# CommandForest.Terminal.Setup

What a terminal session starts from: a definition file, perhaps a messages file, and choices. Every
choice is a provider on every root, every hook echoes its values, and every root is registered.
-/

namespace CommandForest

/-- Handlers that echo each hook of a forest with its values. -/
def Handlers.echoing (hooks : List String) : Except DuplicateHook Handlers :=
  hooks.foldlM (fun handlers hook => handlers.insert hook (.echo hook)) {}

namespace Terminal

/-- A file by its path, with its bytes or the reason why they could not be read. -/
structure File where
  path : String
  content : Except String ByteArray

/-- The text of a file. -/
def File.text (file : File) : Except String String :=
  match file.content with
  | .error reason => .error reason
  | .ok bytes =>
    match String.fromUTF8? bytes with
    | some text => .ok text
    | none => .error DefinitionError.invalidBytes

/-- What a session is set up from. -/
structure Setup where
  definition : File
  messages : Option File := none
  qualifier : String := "cmdtree"
  choices : List Choices := []

/-- Why a session could not be set up. -/
inductive SetupError
  | definition (path : String) (cause : DefinitionError)
  | unreadableMessages (path reason : String)
  | invalidMessages (path : String)
  | unknownCommand (cause : UnknownCommand)
  | duplicateHook (cause : DuplicateHook)

/-- The wording and then what caused it, outermost first. -/
def SetupError.chain : SetupError → List String
  | definition path cause => ("failed to load commands from " ++ path) :: cause.chain
  | unreadableMessages path reason => ["failed to read " ++ path, reason]
  | invalidMessages path => ["invalid messages file " ++ path]
  | unknownCommand cause => [cause.message]
  | duplicateHook cause => [cause.message]

/-- A forest with its labels, ready for lines. -/
structure Session where
  forest : Forest
  labels : Labels

namespace Setup

/-- Reads the definition file. -/
def readDefinition (s : Setup) : Except SetupError Definition :=
  let answer : Except DefinitionError Definition :=
    match s.definition.text with
    | .error reason => .error (.unreadable reason)
    | .ok source => Definition.read source
  answer.mapError (.definition s.definition.path)

/-- Reads the messages file, if there is one. -/
def readMessages (s : Setup) : Except SetupError Messages :=
  match s.messages with
  | none => .ok {}
  | some file =>
    match file.text with
    | .error reason => .error (.unreadableMessages file.path reason)
    | .ok text =>
      match Messages.readYaml text with
      | some messages => .ok messages
      | none => .error (.invalidMessages file.path)

/-- Registers the providers of all choices on a root. -/
def addChoices (choices : List Choices) (f : Forest) (root : CommandId) :
    Except UnknownCommand Forest :=
  choices.foldlM (fun f c => f.provide root c.provider) f

/-- Sets a session up, and lists what is reported meanwhile. -/
def load (s : Setup) : Except SetupError (Session × List Diagnostic) := do
  let definition ← s.readDefinition
  let messages ← s.readMessages
  let bare : Forest := { Forest.ofDefinition definition with messages := messages }
  let furnished ← (bare.roots.foldlM (addChoices s.choices) bare).mapError .unknownCommand
  let handlers ← (Handlers.echoing furnished.hooks).mapError .duplicateHook
  let registered ← (furnished.registerRoots {} s.qualifier handlers).mapError .unknownCommand
  return (⟨registered.forest, registered.labels⟩, definition.report.toList ++ registered.reports)

end Setup

namespace Session

/-- Runs a line, and gives the session afterwards. -/
def dispatch (s : Session) (sender : Sender) (line : String) : Outcome × Session :=
  let outcome := s.labels.runLine s.forest sender line
  (outcome, { s with forest := outcome.forest })

/-- Completes a line, and gives the session afterwards. -/
def complete (s : Session) (sender : Sender) (line : String) : Option (List String) × Session :=
  let (candidates, forest) := s.labels.continueLine s.forest sender line
  (candidates, { s with forest := forest })

end Session

end Terminal

end CommandForest
