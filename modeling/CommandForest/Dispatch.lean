import CommandForest.Conversion
import CommandForest.Event

/-!
# CommandForest.Dispatch

Finding the command that handles the words of a line. At each command, in this order:

* a refused sender is told so, and the walk ends;
* a bound command whose parameters take the words answers them;
* with no words left, help is shown;
* the children are tried: one named by the first word gets the rest, an anonymous one gets all the
  words, and the first that handles them ends the walk;
* an anonymous command leaves the words unhandled, and any other shows its help.
-/

namespace CommandForest

/-- Whether words were handled, and what happened. -/
structure Route where
  handled : Bool
  log : List Event

namespace Command

/-- Tries the words on a bound command: the events, with the answer at the end if they converted. -/
def attempt (c : Command) (sender : Sender) (id : CommandId) (tokens : List String) : Route :=
  let answerWith (answer : List Value → Event) : Route :=
    let conversion := convertAll c.providers c.parameters tokens
    let lookups := Event.settled id conversion.consulted ::
      (conversion.unresolved.map (Event.unresolved id)).toList
    match conversion.values with
    | some values => ⟨true, lookups ++ [answer values]⟩
    | none => ⟨false, lookups⟩
  let hook := c.hook.getD ""
  match c.binding with
  | .unbound => ⟨false, []⟩
  | .bound handler =>
    answerWith fun values => .answered id hook values (handler.respond sender values)
  | .mismatch expected found => answerWith fun _ => .mismatched id hook expected found

end Command

namespace Branch

mutual

/-- Walks through a branch of a forest. -/
def dispatch (f : Forest) (sender : Sender) : Branch → List String → Route
  | mk id c children, tokens =>
    match c.denial sender with
    | some denial => ⟨true, [.denied id denial]⟩
    | none =>
      let tried := c.attempt sender id tokens
      if tried.handled then
        tried
      else
        let help := f.helpEvents (mk id c children) sender
        match tokens with
        | [] => ⟨true, tried.log ++ help⟩
        | first :: rest =>
          let below := dispatchAmong f sender children first rest
          if below.handled then ⟨true, tried.log ++ below.log⟩
          else if c.isAnonymous then ⟨false, tried.log ++ below.log⟩
          else ⟨true, tried.log ++ below.log ++ help⟩

/-- Tries branches in order until one handles the words `first :: rest`. -/
def dispatchAmong (f : Forest) (sender : Sender) :
    List Branch → (first : String) → (rest : List String) → Route
  | [], _, _ => ⟨false, []⟩
  | b :: others, first, rest =>
    let here :=
      if b.command.isAnonymous then dispatch f sender b (first :: rest)
      else if b.command.answersTo first then dispatch f sender b rest
      else ⟨false, []⟩
    if here.handled then here
    else
      let later := dispatchAmong f sender others first rest
      ⟨later.handled, here.log ++ later.log⟩

end

end Branch

/-- The answer to a line: whether it was handled, what happened, and the forest afterwards. -/
structure Outcome where
  handled : Bool
  log : List Event := []
  forest : Forest

namespace Outcome

/-- What the sender reads. -/
def messages (o : Outcome) : List String := o.log.flatMap (Event.messages o.forest.messages)

/-- What is reported. -/
def reports (o : Outcome) : List Diagnostic := o.log.flatMap Event.reports

end Outcome

/-- Runs words at a command. -/
def Forest.execute (f : Forest) (id : CommandId) (sender : Sender) (tokens : List String) :
    Outcome :=
  match f.branch? id with
  | none => { handled := false, log := [.unknown id], forest := f }
  | some b =>
    let route := b.dispatch f sender tokens
    { handled := route.handled, log := route.log, forest := f.settle route.log }

end CommandForest
