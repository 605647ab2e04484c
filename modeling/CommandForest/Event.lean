import CommandForest.Help

/-!
# CommandForest.Event

What happens on a walk through a forest, one event after the other. The messages to the sender, the
reports, and the providers that parameters settle on are all read off the events:

* `denied`, `answered`, `mismatched` and `helped` end a dispatch;
* `settled` and `unresolved` only tell what became of parameters;
* `unknown` tells that there is no command to walk from.
-/

namespace CommandForest

/-- Something that happens at a command. -/
inductive Event
  /-- The providers of these parameters were looked up. -/
  | settled (id : CommandId) (positions : List Nat)
  | unresolved (id : CommandId) (provider : String)
  | unknown (id : CommandId)
  | denied (id : CommandId) (denial : Denial)
  /-- The handler was called with these values. -/
  | answered (id : CommandId) (hook : String) (values : List Value) (response : Response)
  /-- The handler could not be called. -/
  | mismatched (id : CommandId) (hook : String) (expected : List (Option ValueKind))
      (found : List ValueKind)
  | helped (id : CommandId) (text : String)

namespace Event

/-- What the sender reads. -/
def messages (m : Messages) : Event → List String
  | denied _ denial => [m.denial denial]
  | answered _ _ _ response =>
    response.messages ++ if response.failure.isSome then [m.executionFailed] else []
  | mismatched .. => [m.executionFailed]
  | helped _ text => [text]
  | settled .. | unresolved .. | unknown _ => []

/-- What is reported. -/
def reports : Event → List Diagnostic
  | unresolved _ provider => [.unresolvedProvider provider]
  | unknown id => [.unknownCommand id]
  | answered _ hook _ response =>
    match response.failure with
    | some (.signature given declared) => [.invalidArguments hook (given.map some) declared]
    | some failure => [.handlerFailed hook failure]
    | none => []
  | mismatched _ hook expected found => [.invalidArguments hook expected found]
  | settled .. | denied .. | helped .. => []

/-- Showing the help of a command, and the parameters that settle by being shown. -/
def ofHelp (id : CommandId) (text : String) (lines : List HelpLine) : List Event :=
  lines.map (fun l => settled l.id l.shown) ++ [helped id text]

/-- Lets the parameters of an event settle. -/
def applyTo (f : Forest) : Event → Forest
  | settled id positions => f.modify id fun c => c.settle positions
  | _ => f

end Event

/-- Lets the parameters settle whose providers were looked up. -/
def Forest.settle (f : Forest) (log : List Event) : Forest := log.foldl Event.applyTo f

/-- The help text of a branch, with its events. -/
def Forest.helpEvents (f : Forest) (b : Branch) (sender : Sender) : List Event :=
  match f.shownName b.id with
  | none => []
  | some name =>
    let lines := b.helpLines f.messages sender
    Event.ofHelp b.id (helpText f.messages name lines) lines

/-- The help lines of a command, and the forest in which the parameters they show have settled. -/
def Forest.helpLines (f : Forest) (id : CommandId) (sender : Sender) : List String × Forest :=
  match f.branch? id with
  | none => ([], f)
  | some b =>
    let lines := b.helpLines f.messages sender
    (lines.map HelpLine.text, f.settle (lines.map fun l => .settled l.id l.shown))

/-- The help text of a command, and the forest in which the parameters it shows have settled. -/
def Forest.help (f : Forest) (id : CommandId) (sender : Sender) : Option String × Forest :=
  match f.branch? id with
  | none => (none, f)
  | some b =>
    let log := f.helpEvents b sender
    ((log.flatMap (Event.messages f.messages)).head?, f.settle log)

end CommandForest
