import CommandForest.Json.Reader
import CommandForest.Messages

/-!
# CommandForest.Messages.Json

Messages given in the JSON format. Each is a string; a message that is left out keeps its usual
text, unknown fields are ignored, and one that is given twice is refused.
-/

namespace CommandForest

namespace Messages

/-- The messages that a JSON value gives by name or in order. -/
def ofJson (value : Json) : Option Messages := do
  let fields ← value.record? fieldNames
  let settings ← fieldNames.mapM fun name =>
    (Json.fieldOr fields name (fun v => v.text?.map some) none).map fun text => (name, text)
  some (.ofFields (settings.filterMap fun (name, text) => text.map fun s => (name, s)))

/-- Reads messages from a JSON text. -/
def readJson (text : String) : Option Messages := (Json.read text).bind ofJson

end Messages

end CommandForest
