/-!
# CommandForest.Json

Values of the JSON format. A string whose escapes leave half of a surrogate pair alone is well
formed but has no text.
-/

namespace CommandForest

/-- A JSON value. Numbers are kept as they are written, and fields in their order. -/
inductive Json
  | null
  | bool (b : Bool)
  | number (literal : String)
  | string (text : Option String)
  | array (items : List Json)
  | object (fields : List (Option String × Json))

namespace Json

/-- The text of a string that has one. -/
def text? : Json → Option String
  | string text => text
  | _ => none

/-- The truth value, if the value is one. -/
def bool? : Json → Option Bool
  | bool b => some b
  | _ => none

/-- The items, if the value is an array. -/
def items? : Json → Option (List Json)
  | array items => some items
  | _ => none

/-! ## Records -/

/-- The fields of a record: an object whose keys all have a text, or an array that gives the first
of the names their values in order. -/
def record? (names : List String) : Json → Option (List (String × Json))
  | object fields => fields.mapM fun (key, value) => key.map fun name => (name, value)
  | array items => if items.length ≤ names.length then some (names.zip items) else none
  | _ => none

/-- The value of a field, if it is there. A field given twice is refused. -/
def field? (fields : List (String × Json)) (name : String) : Option (Option Json) :=
  match fields.filter fun entry => entry.1 == name with
  | [] => some none
  | [entry] => some (some entry.2)
  | _ => none

/-- Decodes a field, or takes the usual value if it is not there. -/
def fieldOr (fields : List (String × Json)) (name : String) (decode : Json → Option α)
    (usual : α) : Option α :=
  match field? fields name with
  | none => none
  | some none => some usual
  | some (some value) => decode value

end Json

end CommandForest
