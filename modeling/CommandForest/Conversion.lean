import CommandForest.Parameter

/-!
# CommandForest.Conversion

Turning the words of a command line into values, all or nothing:

* there are as many words as parameters, or more if the last parameter takes the rest of the line;
* words convert one after the other, and the first that fails ends the attempt;
* an attempt records which providers it consulted and which one it missed.
-/

namespace CommandForest

/-! ## One word -/

/-- What became of a word. -/
inductive Converted
  | value (v : Value)
  | refused
  /-- The type of the parameter names no provider in scope. -/
  | unresolved (provider : String)

/-- Converts one word for a parameter. Numbers without a finite value are refused. -/
def Parameter.convert (p : Parameter) (scope : Providers) (token : String) : Converted :=
  let answer (v : Option Value) : Converted :=
    match v with
    | some v => .value v
    | none => .refused
  match p.kind with
  | .string | .multistring => .value (.string token)
  | .int => answer ((Number.readInt64 token.toList).map .int)
  | .double =>
    answer (((Number.readBinary64 token.toList).filter Number.Binary64.isFinite).map .double)
  | .custom name =>
    match p.provider? scope with
    | some provider => answer ((provider.payload? token).map .custom)
    | none => .unresolved name

/-! ## A list of words -/

/-- An attempt to convert words for a list of parameters. -/
structure Conversion where
  /-- One value for each parameter, if all words converted. -/
  values : Option (List Value)
  /-- The positions of the parameters whose words were looked at. -/
  consulted : List Nat := []
  /-- The provider whose absence ended the attempt. -/
  unresolved : Option String := none

namespace Conversion

/-- The words that are left, as one text. -/
def restOfLine (tokens : List String) : Value := .string (Text.trimmed (Text.joined " " tokens))

/-- Converts words for the parameters from `position` on. A parameter that takes the rest of the
line ends the list. -/
def run (scope : Providers) (position : Nat) : List Parameter → List String → Conversion
  | [], _ => ⟨some [], [], none⟩
  | p :: parameters, tokens =>
    if p.takesRest then
      ⟨some [restOfLine tokens], [], none⟩
    else
      match tokens with
      | [] => ⟨none, [], none⟩
      | token :: tokens =>
        match p.convert scope token with
        | .unresolved provider => ⟨none, [], some provider⟩
        | .refused => ⟨none, [position], none⟩
        | .value v =>
          let rest := run scope (position + 1) parameters tokens
          ⟨rest.values.map (v :: ·), position :: rest.consulted, rest.unresolved⟩

end Conversion

/-- Whether the last parameter takes the rest of the line. -/
def endsInRest (parameters : List Parameter) : Bool :=
  match parameters.getLast? with
  | some p => p.takesRest
  | none => false

/-- Whether a number of words can fill the parameters. -/
def fits (parameters : List Parameter) (count : Nat) : Bool :=
  count = parameters.length || (endsInRest parameters && parameters.length < count)

/-- Converts words for a list of parameters. -/
def convertAll (scope : Providers) (parameters : List Parameter) (tokens : List String) :
    Conversion :=
  if fits parameters tokens.length then Conversion.run scope 0 parameters tokens
  else ⟨none, [], none⟩

end CommandForest
