import CommandForest.Provider
import CommandForest.Text.Pieces

/-!
# CommandForest.Choices

A custom type given on the command line as `name=value,value,...`: a fixed set of words.
-/

namespace CommandForest

/-- A name and the words that it stands for. -/
structure Choices where
  name : String
  values : List String
deriving DecidableEq

/-- Why a text is no set of choices. -/
inductive ChoicesError
  | noEqualsSign (text : String)
  | incomplete (text : String)

/-- The wording. -/
def ChoicesError.message : ChoicesError → String
  | noEqualsSign text => "expected name=value,value,... but got '" ++ text ++ "'"
  | incomplete text => "choices '" ++ text ++ "' need a name and at least one value"

namespace Choices

/-- The values between commas, without the blanks around them and without empty ones. -/
def splitValues (s : List Char) : List String :=
  (((Text.pieces (· == ',') s).map Text.trim).filter fun value => !value.isEmpty).map String.ofList

/-- Reads `name=value,value,...`. -/
def read (text : String) : Except ChoicesError Choices :=
  match Text.cut '=' text.toList with
  | none => .error (.noEqualsSign text)
  | some (name, rest) =>
    let values := splitValues rest
    if name.isEmpty || values.isEmpty then .error (.incomplete text)
    else .ok ⟨String.ofList name, values⟩

/-- The provider that takes the values. -/
def provider (c : Choices) : Provider := .choiceOf c.name c.values

end Choices

end CommandForest
