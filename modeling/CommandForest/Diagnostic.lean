import CommandForest.Command

/-!
# CommandForest.Diagnostic

Reports to whoever runs the program. Each is a cause with its particulars; the wording and the named
fields are derived from it.
-/

namespace CommandForest

/-- How serious a report is. -/
inductive Severity
  | warning
  | error
deriving DecidableEq

/-- The word for a severity. -/
def Severity.word : Severity → String
  | warning => "warn"
  | error => "error"

/-- A particular of a report. -/
inductive Particular
  | text (s : String)
  | number (n : Nat)
deriving DecidableEq

/-- A report. -/
inductive Diagnostic
  /-- The innermost command that is still open at the end of a definition. -/
  | unclosed (command : String) (line : Nat)
  | unresolvedProvider (provider : String)
  /-- At binding: the handler takes other kinds of values. -/
  | incompatible (hook : String) (expected : List (Option ValueKind)) (found : List ValueKind)
  | unknownCommand (id : CommandId)
  /-- At execution: the handler was not called, or refused the values. -/
  | invalidArguments (hook : String) (expected : List (Option ValueKind)) (found : List ValueKind)
  | handlerFailed (hook : String) (failure : Failure)

namespace Diagnostic

/-- A call that failed is an error, and all else is a warning. -/
def severity : Diagnostic → Severity
  | invalidArguments .. | handlerFailed .. => .error
  | _ => .warning

/-- The wording. -/
def message : Diagnostic → String
  | unclosed .. => "command block is never closed, ignoring it and the rest of the input"
  | unresolvedProvider _ => "no type provider registered for argument"
  | incompatible .. => "handler parameters do not match command arguments"
  | unknownCommand _ => "execute called with unknown node"
  | invalidArguments .. => "could not invoke handler, invalid arguments"
  | handlerFailed .. => "handler failed"

/-- The particulars by name. -/
def particulars : Diagnostic → List (String × Particular)
  | unclosed command line => [("command", .text command), ("line", .number line)]
  | unresolvedProvider provider => [("provider", .text provider)]
  | incompatible hook expected found | invalidArguments hook expected found =>
    [("hook", .text hook), ("expected", .text (slotList expected)),
      ("found", .text (kindList found))]
  | unknownCommand id => [("node", .text id.describe)]
  | handlerFailed hook failure => [("hook", .text hook), ("error", .text failure.message)]

end Diagnostic

/-- The report of a command that could not be bound, if there is one. -/
def Command.bindReport (c : Command) (handlers : Handlers) : Option Diagnostic :=
  match c.resolve handlers with
  | .mismatch expected found => some (.incompatible (c.hook.getD "") expected found)
  | _ => none

end CommandForest
