import CommandForest.Handler
import CommandForest.Messages
import CommandForest.Parameter

/-!
# CommandForest.Command

One command of a forest: its names, its gates, its parameters, and what it is bound to.

* The first alias is the command's name; the alias `_` makes it anonymous, so that it is tried with
  all the words instead of being picked by one.
* A command refuses senders who lack its permission or are outside its audience.
* Binding looks for the handler of the command's hook and compares signatures.
-/

namespace CommandForest

/-- The number of a command in its forest. -/
abbrev CommandId := Nat

/-- How diagnostics and errors write the number of a command. -/
def CommandId.describe (id : CommandId) : String := "#" ++ toString id

/-! ## Bindings -/

/-- What a command answers with. -/
inductive Binding
  | unbound
  | bound (handler : Handler)
  /-- The handler takes other kinds of values than the command's parameters yield. -/
  | mismatch (expected : List (Option ValueKind)) (found : List ValueKind)

namespace Binding

/-- Whether a handler answers the command. -/
def isBound : Binding → Bool
  | bound _ => true
  | _ => false

end Binding

/-! ## Commands -/

/-- The alias of anonymous commands. -/
def anonymousAlias : String := "_"

/-- A command with its place in a forest. -/
structure Command where
  aliases : List String
  permission : Option String := none
  audience : Audience := .everyone
  help : Option String := none
  hidesSubcommands : Bool := false
  hook : Option String := none
  parameters : List Parameter := []
  children : List CommandId := []
  parent : Option CommandId := none
  providers : Providers := {}
  binding : Binding := .unbound
  /-- The line of the header, for commands that were read from a definition. -/
  line : Option Nat := none

namespace Command

/-- The name of a command, its first alias. -/
def name (c : Command) : String := c.aliases.headD anonymousAlias

/-- Whether a word picks the command. -/
def answersTo (c : Command) (name : String) : Bool := c.aliases.contains name

/-- Whether the command is tried with all the words. -/
def isAnonymous (c : Command) : Bool := c.answersTo anonymousAlias

/-- The help text, or the standard one for a command that hides its subcommands. -/
def shownHelp (c : Command) (m : Messages) : Option String :=
  c.help <|> if c.hidesSubcommands then some m.hiddenSubcommands else none

/-- Why the command refuses a sender. The permission counts before the audience. -/
def denial (c : Command) (sender : Sender) : Option Denial :=
  let outside : Option Denial :=
    if c.audience.admits sender.kind then none
    else if c.audience = .console then some .consoleOnly
    else some .playerOnly
  match c.permission with
  | some permission => if sender.holds permission then outside else some (.permission permission)
  | none => outside

/-! ## Parameters and providers -/

/-- The parameters at these positions settle on the providers in scope. -/
def settle (c : Command) (positions : List Nat) : Command :=
  { c with
    parameters := c.parameters.mapIdx fun i p =>
      if positions.contains i then p.settle c.providers else p }

/-- All parameters settle. -/
def settleAll (c : Command) : Command :=
  { c with parameters := c.parameters.map fun p => p.settle c.providers }

/-- The parameters as help shows them. -/
def parameterList (c : Command) : String :=
  Text.joined " " (c.parameters.map fun p => p.display c.providers)

/-- The name and the parameters as help shows them. -/
def synopsis (c : Command) : String :=
  let parameters := c.parameterList
  if parameters.isEmpty then c.name else c.name ++ " " ++ parameters

/-! ## Binding -/

/-- Whether values of the declared kinds can come from the slots; an unknown slot can yield any. -/
def compatible (slots : List (Option ValueKind)) (declared : List ValueKind) : Bool :=
  slots.length = declared.length &&
    (slots.zip declared).all fun (slot, kind) => slot = none || slot = some kind

/-- The kinds of values that the parameters yield. -/
def slots (c : Command) : List (Option ValueKind) :=
  c.parameters.map fun p => p.yields c.providers

/-- What the hook of a command is bound to among some handlers. -/
def resolve (c : Command) (handlers : Handlers) : Binding :=
  match c.hook.bind handlers.find? with
  | none => .unbound
  | some handler =>
    match handler.signature with
    | none => .bound handler
    | some declared =>
      if compatible c.slots declared then .bound handler else .mismatch c.slots declared

/-- Whether binding looks at the parameters, on which they settle. -/
def checksSignature (c : Command) (handlers : Handlers) : Bool :=
  ((c.hook.bind handlers.find?).bind Handler.signature).isSome

/-- The command bound to its handler. -/
def bind (c : Command) (handlers : Handlers) : Command :=
  let settled := if c.checksSignature handlers then c.settleAll else c
  { settled with binding := c.resolve handlers }

end Command

end CommandForest
