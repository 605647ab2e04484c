/-!
# CommandForest.Yaml.Node

Documents as they are read: scalars, lists, mappings with keys of any kind, and aliases. A node may
have an anchor, and an alias stands for the last node whose anchor has its number.
-/

namespace CommandForest.Yaml

/-- A node of a document. A scalar remembers whether it stood without quotes. -/
inductive Node
  | alias (number : Nat)
  | scalar (anchor : Option Nat) (plain : Bool) (text : String)
  | list (anchor : Option Nat) (items : List Node)
  | mapping (anchor : Option Nat) (fields : List (Node × Node))

namespace Node

/-- The node where one was left out. -/
def empty : Node := .scalar none true ""

/-- An anchor before the node that it names. -/
def anchoredAt (anchor : Option Nat) (node : Node) : List (Nat × Node) :=
  match anchor with
  | some number => [(number, node)]
  | none => []

mutual

/-- The nodes that have an anchor, in the order of the text. -/
def anchored : Node → List (Nat × Node)
  | .alias _ => []
  | .scalar anchor plain text => anchoredAt anchor (.scalar anchor plain text)
  | .list anchor items => anchoredAt anchor (.list anchor items) ++ anchoredItems items
  | .mapping anchor fields => anchoredAt anchor (.mapping anchor fields) ++ anchoredFields fields

/-- The nodes that have an anchor among items. -/
def anchoredItems : List Node → List (Nat × Node)
  | [] => []
  | item :: items => item.anchored ++ anchoredItems items

/-- The nodes that have an anchor among fields. -/
def anchoredFields : List (Node × Node) → List (Nat × Node)
  | [] => []
  | (key, value) :: fields => key.anchored ++ value.anchored ++ anchoredFields fields

end

/-- The node that an alias stands for in the document with this root. -/
def target? (root : Node) (number : Nat) : Option Node := root.anchored.reverse.lookup number

/-- The text of a scalar. -/
def ownText? : Node → Option String
  | .scalar _ _ text => some text
  | _ => none

/-- The text of a scalar in the document with this root, or of one that an alias stands for. -/
def text? (root : Node) : Node → Option String
  | .alias number => (root.target? number).bind ownText?
  | node => node.ownText?

end Node

end CommandForest.Yaml
