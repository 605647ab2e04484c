import CommandForest.Outline
import CommandForest.Yaml.Printer

/-!
# CommandForest.Outline.Yaml

Outlines in the YAML format, with the same fields as in the JSON format.
-/

namespace CommandForest.Outline

open Yaml (Document)

/-- A list of texts. -/
def textsToYaml (texts : List String) : Document := .list (texts.map .text)

/-- A field with a text, if there is one. -/
def yamlTextField (name : String) (text : Option String) : List (String × Document) :=
  (text.map fun s => (name, Document.text s)).toList

mutual

/-- The mapping of an outline. -/
def toYaml : Outline → Document
  | ⟨aliases, parameters, hook, permission, audience, help, hidesSubcommands, children⟩ =>
    .mapping <|
      [("aliases", textsToYaml aliases)] ++
      (if parameters.isEmpty then [] else [("arguments", textsToYaml parameters)]) ++
      yamlTextField "hook" hook ++
      yamlTextField "permission" permission ++
      [("audience", .text audience.word)] ++
      yamlTextField "help" help ++
      (if hidesSubcommands then [("hide_sub", .bool true)] else []) ++
      if children.isEmpty then [] else [("children", .list (allToYaml children))]

/-- The mappings of several outlines. -/
def allToYaml : List Outline → List Document
  | [] => []
  | o :: rest => toYaml o :: allToYaml rest

end

/-- The YAML text of several outlines. -/
def yamlOfAll (os : List Outline) : String := (Document.list (allToYaml os)).render

end CommandForest.Outline
