import CommandForest.Yaml.Property
import CommandForest.Yaml.Token

/-!
# CommandForest.Yaml.Token.State

A text as far as it has been taken apart into tokens. Two things need memory:

* in block style, the indentations of the lists and mappings that are open: a token further to the
  left ends them;
* where the last key may have begun that has no mark of its own: a colon on the same line, at most
  1024 characters further on, makes it a key.
-/

namespace CommandForest.Yaml

/-! ## Places -/

/-- A place in a text. -/
structure Place where
  index : Nat := 0
  line : Nat := 0
  column : Nat := 0
deriving DecidableEq

/-- The place after a character. -/
def Place.after (p : Place) (c : Char) : Place :=
  if isBreak c then ⟨p.index + 1, p.line + 1, 0⟩ else ⟨p.index + 1, p.line, p.column + 1⟩

/-- Where a key may have begun, and how many tokens precede it. In block style one that stands at
the indentation of a list or mapping has to turn out to be a key. -/
structure PossibleKey where
  place : Place
  count : Nat
  required : Bool
deriving DecidableEq

/-- Whether a colon at `p` comes too late for the key. -/
def PossibleKey.isLate (k : PossibleKey) (p : Place) : Bool :=
  k.place.line < p.line || k.place.index + 1024 < p.index

/-! ## State -/

/-- A text as far as it has been taken apart. -/
structure TokenReader where
  /-- What is left of the text. -/
  rest : List Char
  /-- Where that begins. -/
  place : Place := {}
  /-- The tokens so far, the last one first. -/
  tokens : List Token := []
  /-- The indentations of the lists and mappings that are open, the innermost first. -/
  indents : List Nat := []
  /-- Where a key may have begun between the innermost brackets. -/
  key : Option PossibleKey := none
  /-- The same for what lies around these brackets, from the inside out. -/
  outerKeys : List (Option PossibleKey) := []
  /-- Whether a key may begin here. -/
  allowsKey : Bool := true
  /-- The number of the last anchor of each name. -/
  anchors : List (String × Nat) := []
  /-- What directives have declared. -/
  directives : List Directive := []

namespace TokenReader

/-- Whether brackets or braces are open. -/
def inFlow (r : TokenReader) : Bool := !r.outerKeys.isEmpty

/-- The column that a token needs to belong to the innermost list or mapping. -/
def least (r : TokenReader) : Nat :=
  match r.indents with
  | [] => 0
  | indent :: _ => indent + 1

/-- Goes on by some characters. -/
def skip (r : TokenReader) (n : Nat) : TokenReader :=
  { r with rest := r.rest.drop n, place := (r.rest.take n).foldl Place.after r.place }

/-- Goes on to `rest`, which is the end of what is left. -/
def moveTo (r : TokenReader) (rest : List Char) : TokenReader :=
  r.skip (r.rest.length - rest.length)

/-- Adds a token. -/
def emit (r : TokenReader) (t : Token) : TokenReader := { r with tokens := t :: r.tokens }

/-- Sets whether a key may begin next. -/
def allowKey (r : TokenReader) (allowed : Bool) : TokenReader := { r with allowsKey := allowed }

/-! ## Indentation -/

/-- Ends the lists and mappings that are indented to `bound` or further. -/
def closeFrom (r : TokenReader) (bound : Nat) : TokenReader :=
  if r.inFlow then r
  else
    let closed := r.indents.takeWhile (bound ≤ ·)
    { r with
      indents := r.indents.drop closed.length
      tokens := List.replicate closed.length .blockEnd ++ r.tokens }

/-- Begins a list or mapping at `column`, unless one is open there; `since` are the tokens that
belong to it already, the last one first. -/
def openAt (r : TokenReader) (t : Token) (column : Nat) (since : List Token) : TokenReader :=
  if r.inFlow || column < r.least then { r with tokens := since ++ r.tokens }
  else { r with indents := column :: r.indents, tokens := since ++ t :: r.tokens }

/-! ## Keys -/

/-- Gives up a key that may have begun; one that is required cannot be given up. -/
def forgetKey (r : TokenReader) : Option TokenReader :=
  match r.key with
  | none => some r
  | some k => if k.required then none else some { r with key := none }

/-- Notes that a key may begin here. -/
def noteKey (r : TokenReader) : Option TokenReader :=
  if r.allowsKey then
    r.forgetKey.map fun r =>
      { r with
        key := some
          { place := r.place
            count := r.tokens.length
            required := !r.inFlow && r.indents.head? == some r.place.column } }
  else some r

/-- Gives up a key if a colon here came too late for it. -/
def refreshKey (p : Place) : Option PossibleKey → Option (Option PossibleKey)
  | none => some none
  | some k => if k.isLate p then (if k.required then none else some none) else some (some k)

/-- Gives up the keys for which a colon here came too late. -/
def refreshKeys (r : TokenReader) : Option TokenReader := do
  let key ← refreshKey r.place r.key
  let outer ← r.outerKeys.mapM (refreshKey r.place)
  some { r with key := key, outerKeys := outer }

end TokenReader

end CommandForest.Yaml
