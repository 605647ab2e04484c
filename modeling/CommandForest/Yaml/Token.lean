/-!
# CommandForest.Yaml.Token

The tokens of a document. Brackets, braces, dashes and colons are tokens of their own; so is the
place where a list or a mapping in block style begins, which only indentation shows, and where it
ends.
-/

namespace CommandForest.Yaml

/-- A token of a document. -/
inductive Token
  | directive
  | documentStart
  | documentEnd
  | blockList
  | blockMapping
  | blockEnd
  | openBracket
  | closeBracket
  | openBrace
  | closeBrace
  | comma
  | dash
  | key
  | value
  | anchor (number : Nat)
  | alias (number : Nat)
  | tag
  | scalar (plain : Bool) (text : String)
deriving DecidableEq

end CommandForest.Yaml
