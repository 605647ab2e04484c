import CommandForest.Json.Printer
import CommandForest.Json.Reader
import CommandForest.Outline

/-!
# CommandForest.Outline.Json

Outlines in the JSON format:

* fields stand in a fixed order, and those that say nothing are left out;
* reading takes the usual value for a field that is left out, ignores unknown fields, and refuses a
  field that is given twice;
* nested values deeper than 127 levels are refused.
-/

namespace CommandForest

namespace Outline

/-! ## Writing -/

/-- A list of texts. -/
def textsToJson (texts : List String) : Json := .array (texts.map fun s => .string (some s))

/-- A field with a text, if there is one. -/
def textField (name : String) (text : Option String) : List (Option String × Json) :=
  (text.map fun s => (some name, Json.string (some s))).toList

mutual

/-- The JSON value of an outline. -/
def toJson : Outline → Json
  | ⟨aliases, parameters, hook, permission, audience, help, hidesSubcommands, children⟩ =>
    .object <|
      [(some "aliases", textsToJson aliases)] ++
      (if parameters.isEmpty then [] else [(some "arguments", textsToJson parameters)]) ++
      textField "hook" hook ++
      textField "permission" permission ++
      [(some "audience", .string (some audience.word))] ++
      textField "help" help ++
      (if hidesSubcommands then [(some "hide_sub", .bool true)] else []) ++
      if children.isEmpty then [] else [(some "children", .array (allToJson children))]

/-- The JSON values of several outlines. -/
def allToJson : List Outline → List Json
  | [] => []
  | o :: rest => toJson o :: allToJson rest

end

/-- The JSON text of several outlines. -/
def jsonOfAll (os : List Outline) : String := (Json.array (allToJson os)).render

/-! ## Reading -/

/-- The names of the fields in order. -/
def fieldNames : List String :=
  ["aliases", "arguments", "hook", "permission", "audience", "help", "hide_sub", "children"]

/-- A list of texts. -/
def textsOfJson (value : Json) : Option (List String) := value.items?.bind (List.mapM Json.text?)

/-- A text or nothing. -/
def optionalText : Json → Option (Option String)
  | .null => some none
  | value => value.text?.map some

/-- An audience: its word, or an object with the word as its only key and no value. -/
def audienceOfJson (nested : Bool) : Json → Option Audience
  | .string text => text.bind Audience.ofWord?
  | .object [(some word, .null)] => if nested then Audience.ofWord? word else none
  | _ => none

/-- The outline that a value describes, where `levels` more levels of nesting are allowed. -/
def ofJson : (levels : Nat) → Json → Option Outline
  | levels + 2, value => do
    let nested : Bool := 0 < levels
    let list {α : Type} (decode : Json → Option (List α)) (value : Json) : Option (List α) :=
      if nested then decode value else none
    let fields ← value.record? fieldNames
    let aliases ← (← Json.field? fields "aliases").bind (list textsOfJson)
    let parameters ← Json.fieldOr fields "arguments" (list textsOfJson) []
    let hook ← Json.fieldOr fields "hook" optionalText none
    let permission ← Json.fieldOr fields "permission" optionalText none
    let audience ← Json.fieldOr fields "audience" (audienceOfJson nested) .everyone
    let help ← Json.fieldOr fields "help" optionalText none
    let hidesSubcommands ← Json.fieldOr fields "hide_sub" Json.bool? false
    let children ← Json.fieldOr fields "children"
      (list fun value => value.items?.bind (List.mapM (ofJson levels))) []
    some { aliases, parameters, hook, permission, audience, help, hidesSubcommands, children }
  | _, _ => none

/-- How many levels of nesting a text may have, and one more. -/
def nestingLimit : Nat := 128

/-- The outlines that a value lists. -/
def listOfJson (value : Json) : Option (List Outline) :=
  value.items?.bind (List.mapM (ofJson (nestingLimit - 1)))

/-- Reads a JSON text as a list of outlines. -/
def readJson (text : String) : Option (List Outline) := (Json.read text).bind listOfJson

end Outline

end CommandForest
