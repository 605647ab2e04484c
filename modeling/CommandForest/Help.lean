import CommandForest.Branch

/-!
# CommandForest.Help

The help that a sender sees for a command: a header and one line for each visible command of its
branch, depth first.

* A command is listed if it has help text and admits the sender.
* Its line is the path of aliases from the top, its name and parameters, and the help text; an
  anonymous command adds nothing to the path and is listed by its parameters.
* A command that hides its subcommands keeps them out of help from above. Its own help lists them,
  but not the command itself.
-/

namespace CommandForest

/-- A line of help, the command it is about, and the positions of the parameters whose types it
shows. -/
structure HelpLine where
  id : CommandId
  text : String
  shown : List Nat

namespace Command

/-- The positions of the parameters whose types help shows. -/
def shownTypes (c : Command) : List Nat :=
  (c.parameters.zipIdx.filter fun (p, _) => !p.hidesType).map Prod.snd

/-- How to type the command, after the path to it. -/
def usage (c : Command) (path : String) : String :=
  path ++ if c.isAnonymous then c.parameterList else c.synopsis

/-- The path to the children of a command. -/
def extendPath (c : Command) (path : String) : String :=
  if c.isAnonymous then path else path ++ Text.joined "|" c.aliases ++ " "

/-- The line of one command, if the sender sees it. -/
def helpLine? (c : Command) (m : Messages) (sender : Sender) (id : CommandId) (path : String)
    (top : Bool) : Option HelpLine :=
  match c.shownHelp m with
  | none => none
  | some help =>
    if (top && c.hidesSubcommands) || (c.denial sender).isSome then none
    else some ⟨id, Text.trimmed (c.usage path) ++ ": " ++ help, c.shownTypes⟩

end Command

namespace Branch

mutual

/-- The lines of a branch below `path`; `top` marks the command whose help is shown. -/
def helpLinesFrom (m : Messages) (sender : Sender) (path : String) (top : Bool) :
    Branch → List HelpLine
  | mk id c children =>
    let own := (c.helpLine? m sender id path top).toList
    if c.hidesSubcommands && !top then own
    else own ++ helpLinesOfAll m sender (c.extendPath path) children

/-- The lines of the branches below a command. -/
def helpLinesOfAll (m : Messages) (sender : Sender) (path : String) : List Branch → List HelpLine
  | [] => []
  | b :: rest => helpLinesFrom m sender path false b ++ helpLinesOfAll m sender path rest

end

/-- The help lines of a command. -/
def helpLines (b : Branch) (m : Messages) (sender : Sender) : List HelpLine :=
  b.helpLinesFrom m sender "" true

end Branch

/-- A help text: its header, and its lines if there are any. -/
def helpText (m : Messages) (name : String) (lines : List HelpLine) : String :=
  Text.joined "\n" (m.header name :: lines.map HelpLine.text)

end CommandForest
