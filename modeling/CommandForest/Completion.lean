import CommandForest.Event

/-!
# CommandForest.Completion

Continuing the last of the words that were typed. Completion follows the path that dispatch would
take, and answers with candidates that start with the partial word in any case:

* the offers of the provider of the parameter at its position;
* for the first word, the names of the children, and their aliases where the name does not already
  go on further;
* the aliases of the command itself, when the word is one of them.
-/

namespace CommandForest

/-- The candidates, if there are any, and what happened. -/
structure Completion where
  candidates : Option (List String)
  log : List Event := []

/-- Whether a word starts with a lower-case text in any case. -/
def continues (start candidate : String) : Bool := Text.begins start (Text.lowered candidate)

namespace Command

/-- What a child offers for the word `typed`, whose lower-case form is `start`. -/
def offeredNames (c : Command) (typed start : String) : List String :=
  if c.isAnonymous then
    []
  else
    let goesOn := continues start c.name && Text.lowered c.name != start
    c.name ::
      if !typed.isEmpty && !goesOn then c.aliases.filter (continues start) else []

/-- The provider of the parameter at a position. -/
def providerAt (c : Command) (position : Nat) : Option Provider :=
  (c.parameters[position]?).bind fun p => p.provider? c.providers

/-- Everything that can continue the last of `count` words at a command with these children. -/
def candidates (c : Command) (children : List Command) (sender : Sender) (count : Nat)
    (typed start : String) : List String :=
  let offers :=
    match c.providerAt (count - 1) with
    | some provider => provider.complete start sender
    | none => []
  let names :=
    if count = 1 then
      children.flatMap (fun child => child.offeredNames typed start) ++
        if !c.isAnonymous && c.answersTo start then c.aliases else []
    else []
  ((offers ++ names).filter (continues start)).eraseDups

end Command

namespace Branch

mutual

/-- Completes the last of the words at a branch. -/
def complete (sender : Sender) : Branch → List String → Completion
  | mk id c children, tokens =>
    match tokens with
    | [] => ⟨none, []⟩
    | first :: rest =>
      if (c.denial sender).isSome then
        ⟨none, []⟩
      else
        let typed := (first :: rest).getLastD first
        let start := Text.lowered (Text.trimmed typed)
        let log :=
          if (c.providerAt rest.length).isSome then [Event.settled id [rest.length]] else []
        let found :=
          c.candidates (children.map command) sender (rest.length + 1) typed start
        if found.isEmpty then
          let below :=
            completeAmong sender children (Text.lowered (Text.trimmed first)) rest
          ⟨below.candidates, log ++ below.log⟩
        else
          ⟨some found, log⟩

/-- Completes below the child that the word names. An anonymous child before it ends the search. -/
def completeAmong (sender : Sender) :
    List Branch → (name : String) → (rest : List String) → Completion
  | [], _, _ => ⟨none, []⟩
  | b :: others, name, rest =>
    if b.command.isAnonymous then ⟨none, []⟩
    else if b.command.answersTo name then complete sender b rest
    else completeAmong sender others name rest

end

end Branch

/-- Completes the last of the words at a command, and gives the forest afterwards. -/
def Forest.complete (f : Forest) (id : CommandId) (sender : Sender) (tokens : List String) :
    Option (List String) × Forest :=
  match f.branch? id with
  | none => (none, f)
  | some b =>
    let completion := b.complete sender tokens
    (completion.candidates, f.settle completion.log)

end CommandForest
