import CommandForest.Command
import CommandForest.Definition.Error

/-!
# CommandForest.Definition.Line

The lines of a definition. Blanks around a line do not count, and a line is one of these:

* a header, `aliases parameters... {`, which opens a command;
* a closer, `}` alone;
* a directive, known by how it starts, which describes the command it stands in;
* anything else, which is ignored.
-/

namespace CommandForest

/-- A line without the blanks around it, and its number. -/
structure Line where
  number : Nat
  text : List Char
deriving DecidableEq

namespace Line

/-- Numbers and trims the lines of a text, the first being `n`. -/
def numbered (n : Nat) : List (List Char) → List Line
  | [] => []
  | text :: rest => ⟨n, Text.trim text⟩ :: numbered (n + 1) rest

/-- The lines of a definition. -/
def ofSource (source : List Char) : List Line := numbered 1 (Text.lines source)

/-- Whether the line opens a command. -/
def opens (l : Line) : Bool := l.text.getLast? = some '\x7b'

/-- Whether the line closes a command. -/
def closes (l : Line) : Bool := l.text = ['\x7d']

/-! ## Headers -/

/-- Reads the parameters of a header; `afterRest` says that one before them takes the rest of the
line. A malformed parameter counts before its place does. -/
def readParameters (number : Nat) (afterRest : Bool) :
    List (List Char) → Except DefinitionError (List Parameter)
  | [] => .ok []
  | token :: rest =>
    match Parameter.read? token with
    | none => .error (.malformedParameter number (String.ofList token))
    | some p =>
      if afterRest then .error (.multistringNotLast number)
      else (readParameters number p.takesRest rest).map (p :: ·)

/-- Reads the aliases and parameters of a command off its header. -/
def readHeader (l : Line) : Except DefinitionError Command :=
  let body := if l.opens then l.text.dropLast else l.text
  match Text.words body with
  | [] => .error (.missingAliases l.number)
  | aliases :: tokens =>
    let names := Text.pieces (· == ',') aliases
    if names.any List.isEmpty then .error (.emptyAlias l.number (String.ofList aliases))
    else
      (readParameters l.number false tokens).map fun parameters =>
        { aliases := names.map String.ofList, parameters := parameters, line := some l.number }

/-! ## Directives -/

/-- What a line says about the command it stands in. -/
inductive Directive
  | hook (name : List Char)
  | permission (name : List Char)
  | users (word : List Char)
  | help (text : List Char)
  | hidesub
deriving DecidableEq

/-- The directive on a line, if it is one. -/
def directive? (l : Line) : Option Directive :=
  match Text.after? "hook ".toList l.text with
  | some rest => some (.hook (Text.trim rest))
  | none =>
    match Text.after? "permission ".toList l.text with
    | some rest => some (.permission (Text.trim rest))
    | none =>
      match Text.after? "users ".toList l.text with
      | some rest => some (.users (Text.trim rest))
      | none =>
        match Text.after? "help ".toList l.text with
        | some rest => some (.help (Text.trim rest))
        | none => if "hidesub".toList.isPrefixOf l.text then some .hidesub else none

/-- The command with what a directive says about it. A later directive replaces an earlier one of
the same kind. -/
def Directive.apply (number : Nat) (c : Command) : Directive → Except DefinitionError Command
  | hook name => .ok { c with hook := some (String.ofList name) }
  | permission name => .ok { c with permission := some (String.ofList name) }
  | users word =>
    match Audience.ofWord? (String.ofList word) with
    | some audience => .ok { c with audience := audience }
    | none => .error (.unknownAudience number (String.ofList word))
  | help text => .ok { c with help := some (String.ofList text) }
  | hidesub => .ok { c with hidesSubcommands := true }

/-- The command with what a line that neither opens nor closes says about it. -/
def describe (l : Line) (c : Command) : Except DefinitionError Command :=
  match l.directive? with
  | some d => d.apply l.number c
  | none => .ok c

end Line

end CommandForest
