import CommandForest.Yaml.Node
import CommandForest.Yaml.Token.Reader

/-!
# CommandForest.Yaml.Node.Reader

Putting the tokens of a text together to the document that it holds. What is left out between two
marks is an empty scalar.
-/

namespace CommandForest.Yaml

/-- Where a node stands. As the key or the value of a field, a list in block style may have its
dashes at the indentation of the field. -/
inductive Spot
  | item
  | field
  | flow
deriving DecidableEq

/-- A node or several, and the tokens that follow. -/
abbrev NodeRest (α : Type) := Option (α × List Token)

/-! ## Tokens between nodes -/

/-- Whether a token ends an item or a field in block style. -/
def endsBlockNode : Token → Bool
  | .dash | .key | .value | .blockEnd => true
  | _ => false

/-- Whether a token ends a key or a value in block style. -/
def endsField : Token → Bool
  | .key | .value | .blockEnd => true
  | _ => false

/-- Whether a token ends an item or a value between brackets. -/
def endsFlowNode (close : Token) (t : Token) : Bool := t == .comma || t == close

/-- Whether a token ends a key between brackets. -/
def endsFlowKey (close : Token) (t : Token) : Bool := t == .value || endsFlowNode close t

/-- Reads a node, unless the next token shows that it was left out. -/
def readUnless (ends : Token → Bool) (read : List Token → NodeRest Node) (ts : List Token) :
    NodeRest Node :=
  if (ts.head?.map ends).getD false then some (.empty, ts) else read ts

/-- Reads a value after its mark, if there is one. -/
def readAfterMark (ends : Token → Bool) (read : List Token → NodeRest Node) :
    List Token → NodeRest Node
  | .value :: ts => readUnless ends read ts
  | ts => some (.empty, ts)

/-- The tokens from the next item between brackets on; a comma precedes all but the first. -/
def nextItem (first : Bool) (close : Token) : List Token → Option (List Token)
  | t :: ts => if first || t == close then some (t :: ts) else if t == .comma then some ts else none
  | [] => none

/-- The anchor of a node, whether it has a tag, and what follows both. -/
def readProperties : List Token → Option Nat × Bool × List Token
  | .anchor n :: .tag :: ts => (some n, true, ts)
  | .tag :: .anchor n :: ts => (some n, true, ts)
  | .anchor n :: ts => (some n, false, ts)
  | .tag :: ts => (none, true, ts)
  | ts => (none, false, ts)

/-! ## Nodes -/

mutual

/-- Reads a node. Each step takes some of the fuel, of which two units for each token are enough. -/
def readNode : Nat → Spot → List Token → NodeRest Node
  | 0, _, _ => none
  | _ + 1, _, .alias n :: ts => some (.alias n, ts)
  | fuel + 1, spot, ts =>
    let (anchor, tagged, ts) := readProperties ts
    let absent : NodeRest Node :=
      if anchor.isSome || tagged then some (.scalar anchor true "", ts) else none
    match ts with
    | .scalar plain text :: ts => some (.scalar anchor plain text, ts)
    | .openBracket :: ts =>
      (readFlowItems fuel true ts).map fun (items, ts) => (.list anchor items, ts)
    | .openBrace :: ts =>
      (readFlowFields fuel true ts).map fun (fields, ts) => (.mapping anchor fields, ts)
    | .dash :: rest =>
      if spot = .field then
        (readItems fuel true (.dash :: rest)).map fun (items, ts) => (.list anchor items, ts)
      else absent
    | .blockList :: ts =>
      if spot = .flow then absent
      else (readItems fuel false ts).map fun (items, ts) => (.list anchor items, ts)
    | .blockMapping :: ts =>
      if spot = .flow then absent
      else (readFields fuel ts).map fun (fields, ts) => (.mapping anchor fields, ts)
    | _ => absent

/-- Reads the items of a list in block style. If it is `bare`, no token shows where it ends. -/
def readItems : Nat → Bool → List Token → NodeRest (List Node)
  | 0, _, _ => none
  | fuel + 1, bare, .dash :: ts =>
    match readUnless endsBlockNode (readNode fuel .item) ts with
    | none => none
    | some (item, ts) => (readItems fuel bare ts).map fun (items, ts) => (item :: items, ts)
  | _ + 1, true, ts => some ([], ts)
  | _ + 1, false, .blockEnd :: ts => some ([], ts)
  | _ + 1, false, _ => none

/-- Reads the fields of a mapping in block style. -/
def readFields : Nat → List Token → NodeRest (List (Node × Node))
  | 0, _ => none
  | fuel + 1, .key :: ts =>
    match readUnless endsField (readNode fuel .field) ts with
    | none => none
    | some (key, ts) =>
      match readAfterMark endsField (readNode fuel .field) ts with
      | none => none
      | some (value, ts) =>
        (readFields fuel ts).map fun (fields, ts) => ((key, value) :: fields, ts)
  | _ + 1, .blockEnd :: ts => some ([], ts)
  | _ + 1, _ => none

/-- Reads the items of a list between brackets, each of which may be a field. -/
def readFlowItems : Nat → Bool → List Token → NodeRest (List Node)
  | 0, _, _ => none
  | fuel + 1, first, ts =>
    match nextItem first .closeBracket ts with
    | some (.closeBracket :: ts) => some ([], ts)
    | some (.key :: ts) =>
      match readPairKey fuel ts with
      | none => none
      | some (key, ts) =>
        match readAfterMark (endsFlowNode .closeBracket) (readNode fuel .flow) ts with
        | none => none
        | some (value, ts) =>
          (readFlowItems fuel false ts).map fun (items, ts) =>
            (.mapping none [(key, value)] :: items, ts)
    | some ts =>
      match readNode fuel .flow ts with
      | none => none
      | some (item, ts) => (readFlowItems fuel false ts).map fun (items, ts) => (item :: items, ts)
    | none => none

/-- Reads the key of a field that is an item of a list. The token that shows that it was left out is
dropped. -/
def readPairKey : Nat → List Token → NodeRest Node
  | 0, _ => none
  | fuel + 1, ts =>
    if (ts.head?.map (endsFlowKey .closeBracket)).getD false then some (.empty, ts.tail)
    else readNode fuel .flow ts

/-- Reads the fields of a mapping between braces. -/
def readFlowFields : Nat → Bool → List Token → NodeRest (List (Node × Node))
  | 0, _, _ => none
  | fuel + 1, first, ts =>
    match nextItem first .closeBrace ts with
    | some (.closeBrace :: ts) => some ([], ts)
    | some (.key :: ts) =>
      match readUnless (endsFlowKey .closeBrace) (readNode fuel .flow) ts with
      | none => none
      | some (key, ts) =>
        match readAfterMark (endsFlowNode .closeBrace) (readNode fuel .flow) ts with
        | none => none
        | some (value, ts) =>
          (readFlowFields fuel false ts).map fun (fields, ts) => ((key, value) :: fields, ts)
    | some ts =>
      match readNode fuel .flow ts with
      | none => none
      | some (key, ts) =>
        (readFlowFields fuel false ts).map fun (fields, ts) => ((key, .empty) :: fields, ts)
    | none => none

end

/-! ## Documents -/

/-- Whether a token stands outside of documents. -/
def isOutside : Token → Bool
  | .directive | .documentStart | .documentEnd => true
  | _ => false

/-- The root of the only document of some tokens. After its mark a document may be empty. -/
def readDocument (ts : List Token) : NodeRest Node :=
  let read := readNode (2 * ts.length + 2) .item
  match ts, ts.dropWhile (· == .directive) with
  | _, .documentStart :: rest =>
    match rest with
    | [] => some (.empty, [])
    | _ => readUnless isOutside read rest
  | .directive :: _, _ => none
  | ts, _ => read ts

/-- The document that some tokens make up, if there is one. -/
def Node.ofTokens? (ts : List Token) : Option (Option Node) :=
  if ts.isEmpty then some none
  else
    match readDocument ts with
    | some (root, rest) => if rest.all (· == .documentEnd) then some (some root) else none
    | none => none

/-! ## Texts -/

/-- Characters that a document may hold; of the control characters these are only tabs and line
breaks. -/
def isReadable (c : Char) : Bool :=
  let n := c.toNat
  c == '\t' || isBreak c || (0x20 ≤ n && n ≤ 0x7E) || (0xA0 ≤ n && n != 0xFFFE && n != 0xFFFF)

/-- The text with a line feed for each line break of one line: a carriage return, one before a line
feed, or a next line. -/
def unifyBreaks : List Char → List Char
  | '\r' :: '\n' :: rest => '\n' :: unifyBreaks rest
  | c :: rest => (if c == '\r' || c == '\u0085' then '\n' else c) :: unifyBreaks rest
  | [] => []

/-- Reads a text that holds one document, or none. -/
def Node.read (source : String) : Option (Option Node) :=
  let s := source.toList
  if s.all isReadable then (tokens? (unifyBreaks s)).bind ofTokens? else none

end CommandForest.Yaml
