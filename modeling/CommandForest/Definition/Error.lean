/-!
# CommandForest.Definition.Error

Why a definition cannot be read. Every cause but the last names the line at fault, counted from one.
-/

namespace CommandForest

/-- A cause for refusing a definition. -/
inductive DefinitionError
  /-- Nothing stands before the opening brace. -/
  | missingAliases (line : Nat)
  /-- An alias between commas is empty. -/
  | emptyAlias (line : Nat) (aliases : String)
  /-- A parameter is not of the form `type:name`. -/
  | malformedParameter (line : Nat) (token : String)
  /-- Another parameter follows one that takes the rest of the line. -/
  | multistringNotLast (line : Nat)
  | unknownAudience (line : Nat) (word : String)
  /-- The definition could not be read at all. -/
  | unreadable (reason : String)
deriving DecidableEq

namespace DefinitionError

/-- The line at fault. -/
def line? : DefinitionError → Option Nat
  | missingAliases n | emptyAlias n _ | malformedParameter n _ | multistringNotLast n
  | unknownAudience n _ => some n
  | unreadable _ => none

/-- What is wrong with bytes that are no text. -/
def invalidBytes : String := "stream did not contain valid UTF-8"

/-- The wording. -/
def message : DefinitionError → String
  | missingAliases n => "line " ++ toString n ++ ": command header has no aliases"
  | emptyAlias n aliases => "line " ++ toString n ++ ": empty alias in '" ++ aliases ++ "'"
  | malformedParameter n token =>
    "line " ++ toString n ++ ": malformed argument '" ++ token ++ "', expected type:name"
  | multistringNotLast n =>
    "line " ++ toString n ++ ": only the last argument may be a multistring"
  | unknownAudience n word =>
    "line " ++ toString n ++ ": unknown audience '" ++ word ++
      "', expected everyone, console or player"
  | unreadable reason => "failed to read command definitions: " ++ reason

/-- The wording and then what caused it, outermost first. -/
def chain : DefinitionError → List String
  | unreadable reason => [(unreadable reason).message, reason]
  | e => [e.message]

end DefinitionError

end CommandForest
