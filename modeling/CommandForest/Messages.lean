import CommandForest.Text.Pieces

/-!
# CommandForest.Messages

The texts that senders read. Each has a default, and a settings file may give others by name; two
of them have a place that is filled in.
-/

namespace CommandForest

/-- Why a command refuses a sender. -/
inductive Denial
  | permission (name : String)
  | consoleOnly
  | playerOnly
deriving DecidableEq

/-- The texts that senders read. -/
structure Messages where
  noPermission : String :=
    "You do not have permission to execute that command. (Node: \x7bpermission\x7d)"
  consoleOnly : String := "This command can only be executed by console!"
  playerOnly : String := "This command can only be executed by a player!"
  executionFailed : String :=
    "An error occurred in executing this command, please check console."
  helpHeader : String := "--[ Help for \x7bname\x7d ]--"
  hiddenSubcommands : String := "Subcommands hidden"
  noHelp : String := "No help provided"
deriving DecidableEq

namespace Messages

/-- The text of a refusal. -/
def denial (m : Messages) : Denial → String
  | .permission name => Text.replaceAll "\x7bpermission\x7d" name m.noPermission
  | .consoleOnly => m.consoleOnly
  | .playerOnly => m.playerOnly

/-- The first line of a help text. -/
def header (m : Messages) (name : String) : String :=
  Text.replaceAll "\x7bname\x7d" name m.helpHeader

/-! ## Messages by name -/

/-- The names of the messages in settings, in order. -/
def fieldNames : List String :=
  ["no_permission", "console_only", "player_only", "execution_failed", "help_header",
    "hidden_subcommands", "no_help"]

/-- The messages with their names. -/
def fields (m : Messages) : List (String × String) :=
  fieldNames.zip
    [m.noPermission, m.consoleOnly, m.playerOnly, m.executionFailed, m.helpHeader,
      m.hiddenSubcommands, m.noHelp]

/-- The messages that settings give by name, and the defaults for the others. -/
def ofFields (settings : List (String × String)) : Messages :=
  let pick (name default : String) : String := (settings.lookup name).getD default
  let usual : Messages := {}
  { noPermission := pick "no_permission" usual.noPermission
    consoleOnly := pick "console_only" usual.consoleOnly
    playerOnly := pick "player_only" usual.playerOnly
    executionFailed := pick "execution_failed" usual.executionFailed
    helpHeader := pick "help_header" usual.helpHeader
    hiddenSubcommands := pick "hidden_subcommands" usual.hiddenSubcommands
    noHelp := pick "no_help" usual.noHelp }

end Messages

end CommandForest
