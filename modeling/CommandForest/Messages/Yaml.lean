import CommandForest.Messages
import CommandForest.Yaml.Node.Reader

/-!
# CommandForest.Messages.Yaml

Messages given in the YAML format, as a mapping whose keys are scalars. Any scalar is a text; a
message that is left out keeps its usual text, unknown fields are ignored, and one that is given
twice is refused. An empty document gives the usual messages.
-/

namespace CommandForest.Messages

open Yaml (Node)

/-- The message that a field gives, if it is known. -/
def ofField (root : Node) (field : Node × Node) : Option (Option (String × String)) :=
  (root.text? field.1).bind fun name =>
    if fieldNames.contains name then (root.text? field.2).map fun text => some (name, text)
    else some none

/-- The messages that the root of a document gives by name. -/
def ofNode (root : Node) : Option Messages :=
  match root with
  | .mapping _ fields =>
    (fields.mapM (ofField root)).bind fun settings =>
      let given := settings.filterMap id
      if (given.map Prod.fst).Nodup then some (.ofFields given) else none
  | .scalar _ true "" => some {}
  | _ => none

/-- Reads messages from a YAML text. -/
def readYaml (source : String) : Option Messages :=
  (Node.read source).bind fun
    | none => some {}
    | some root => ofNode root

end CommandForest.Messages
