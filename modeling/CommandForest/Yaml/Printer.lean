import CommandForest.Yaml.Scalar

/-!
# CommandForest.Yaml.Printer

Documents of the YAML format in block style: the items of a list stand at the indentation of its
key, each after a dash, and the fields of a mapping stand below each other.
-/

namespace CommandForest.Yaml

/-- A document to be written, made of texts, truth values, lists and mappings. -/
inductive Document
  | text (s : String)
  | bool (b : Bool)
  | list (items : List Document)
  | mapping (fields : List (String × Document))

/-- An indentation. -/
def spaces (n : Nat) : List Char := List.replicate n ' '

/-- Ends a line that is not ended yet. -/
def endLine (s : List Char) : List Char := if endsInBreak s then s else s ++ ['\n']

mutual

/-- The lines of an item after its dash, which stands at `indent`. -/
def writeItem (indent : Nat) : Document → List Char
  | .text s => endLine (writeScalar (indent + 2) s.toList)
  | .bool b => (if b then "true\n" else "false\n").toList
  | .list [] => "[]\n".toList
  | .list (item :: items) =>
    List.intercalate (spaces (indent + 2)) (writeItems (indent + 2) (item :: items))
  | .mapping [] => "\x7b\x7d\n".toList
  | .mapping (field :: fields) =>
    List.intercalate (spaces (indent + 2)) (writeFields (indent + 2) (field :: fields))

/-- The items of a list, each with its dash. -/
def writeItems (indent : Nat) : List Document → List (List Char)
  | [] => []
  | item :: items => ('-' :: ' ' :: writeItem indent item) :: writeItems indent items

/-- The lines of a field after the colon of its key, which stands at `indent`. -/
def writeValue (indent : Nat) : Document → List Char
  | .text s => ' ' :: endLine (writeScalar (indent + 2) s.toList)
  | .bool b => (if b then " true\n" else " false\n").toList
  | .list [] => " []\n".toList
  | .list (item :: items) =>
    '\n' :: (writeItems indent (item :: items)).flatMap (spaces indent ++ ·)
  | .mapping [] => " \x7b\x7d\n".toList
  | .mapping (field :: fields) =>
    '\n' :: (writeFields (indent + 2) (field :: fields)).flatMap (spaces (indent + 2) ++ ·)

/-- The fields of a mapping. -/
def writeFields (indent : Nat) : List (String × Document) → List (List Char)
  | [] => []
  | (key, value) :: fields =>
    (key.toList ++ ':' :: writeValue indent value) :: writeFields indent fields

end

/-- The text of a document. -/
def Document.render (document : Document) : String :=
  String.ofList
    (match document with
    | .list [] => "[]\n".toList
    | .list items => (writeItems 0 items).flatten
    | .mapping [] => "\x7b\x7d\n".toList
    | .mapping fields => (writeFields 0 fields).flatten
    | .text s => endLine (writeScalar 0 s.toList)
    | .bool b => (if b then "true\n" else "false\n").toList)

end CommandForest.Yaml
