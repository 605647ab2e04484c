import CommandForest.Yaml.Block
import CommandForest.Yaml.Plain
import CommandForest.Yaml.Quoted
import CommandForest.Yaml.Token.State

/-!
# CommandForest.Yaml.Token.Reader

Taking a text apart into tokens, one after the other; `tokens?` takes a whole text.

Anchors are numbered. A name that is given again gets a new number, and an alias has the number of
the last anchor of its name; the next number is how many names there are.
-/

namespace CommandForest.Yaml

namespace TokenReader

/-! ## Blanks and comments -/

/-- Drops blanks, comments and line breaks up to the next token, and tells whether a key may begin
there. In block style a new line allows one, and where one may begin no tab may stand. At the start
of a line the mark of byte order is dropped too. -/
def skipIdle (flow : Bool) (allowed lineStart comment : Bool) : List Char → List Char × Bool
  | [] => ([], allowed)
  | c :: rest =>
    if isBreak c then skipIdle flow (allowed || !flow) true false rest
    else if comment then skipIdle flow allowed false true rest
    else if c == ' ' || (c == '\t' && (flow || !allowed)) then
      skipIdle flow allowed false false rest
    else if c == '\ufeff' && lineStart then skipIdle flow allowed false false rest
    else if c == '#' then skipIdle flow allowed false true rest
    else (c :: rest, allowed)

/-- Goes on to the next token. -/
def toNextToken (r : TokenReader) : TokenReader :=
  let (rest, allowed) := skipIdle r.inFlow r.allowsKey (r.place.column == 0) false r.rest
  (r.moveTo rest).allowKey allowed

/-! ## Structure -/

/-- Begins a list or mapping between brackets. -/
def openFlow (r : TokenReader) (t : Token) : Option TokenReader :=
  r.noteKey.map fun r =>
    (({ r with key := none, outerKeys := r.key :: r.outerKeys }.allowKey true).emit t).skip 1

/-- Ends a list or mapping between brackets. -/
def closeFlow (r : TokenReader) (t : Token) : Option TokenReader :=
  r.forgetKey.map fun r =>
    let outside :=
      match r.outerKeys with
      | [] => r
      | key :: more => { r with key := key, outerKeys := more }
    ((outside.allowKey false).emit t).skip 1

/-- Goes on to the next item between brackets. -/
def readComma (r : TokenReader) : Option TokenReader :=
  r.forgetKey.map fun r => ((r.allowKey true).emit .comma).skip 1

/-- Begins an item of a list in block style. -/
def readDash (r : TokenReader) : Option TokenReader :=
  if r.inFlow || r.allowsKey then
    (r.openAt .blockList r.place.column []).forgetKey.map fun r =>
      ((r.allowKey true).emit .dash).skip 1
  else none

/-- Begins a key that has a mark of its own. -/
def readKey (r : TokenReader) : Option TokenReader :=
  if r.inFlow || r.allowsKey then
    (r.openAt .blockMapping r.place.column []).forgetKey.map fun r =>
      ((r.allowKey (!r.inFlow)).emit .key).skip 1
  else none

/-- Begins a value, and marks what stands before it as its key. -/
def readValue (r : TokenReader) : Option TokenReader :=
  match r.key with
  | some k =>
    let since := r.tokens.take (r.tokens.length - k.count)
    let before := { r with tokens := r.tokens.drop (r.tokens.length - k.count), key := none }
    let marked := before.openAt .blockMapping k.place.column (since ++ [.key])
    some (((marked.allowKey false).emit .value).skip 1)
  | none =>
    if r.inFlow || r.allowsKey then
      let opened := r.openAt .blockMapping r.place.column []
      some (((opened.allowKey (!r.inFlow)).emit .value).skip 1)
    else none

/-- Reads the mark of a document. -/
def readMark (r : TokenReader) (t : Token) : Option TokenReader :=
  (r.closeFrom 0).forgetKey.map fun r => ((r.allowKey false).emit t).skip 3

/-- Reads a directive. The version is given once, and so is each handle. -/
def readDeclaration (r : TokenReader) (s : List Char) : Option TokenReader := do
  let r ← (r.closeFrom 0).forgetKey
  let (directive, rest) ← readDirective s
  if r.directives.contains directive then none
  else
    some (({ r with directives := directive :: r.directives }.allowKey false).emit .directive
      |>.moveTo rest)

/-! ## Properties -/

/-- Reads an anchor and numbers it. -/
def readAnchor (r : TokenReader) (s : List Char) : Option TokenReader := do
  let r ← r.noteKey
  let (name, rest) ← readName s
  let number := r.anchors.length
  let others := r.anchors.filter fun entry => entry.1 != name
  some (({ r with anchors := (name, number) :: others }.allowKey false).emit (.anchor number)
    |>.moveTo rest)

/-- Reads an alias of an anchor. -/
def readAlias (r : TokenReader) (s : List Char) : Option TokenReader := do
  let r ← r.noteKey
  let (name, rest) ← readName s
  let number ← r.anchors.lookup name
  some ((r.allowKey false).emit (.alias number) |>.moveTo rest)

/-- Whether a tag with this handle is known. -/
def knowsHandle (r : TokenReader) : Option String → Bool
  | none => true
  | some name => name.isEmpty || r.directives.contains (.handle (some name))

/-- Reads a tag. -/
def readTagged (r : TokenReader) (s : List Char) : Option TokenReader := do
  let r ← r.noteKey
  let (handle, rest) ← readTag s
  if r.knowsHandle handle && (blankFollows rest || (r.inFlow && rest.head? == some ',')) then
    some ((r.allowKey false).emit .tag |>.moveTo rest)
  else none

/-! ## Scalars -/

/-- The token of a scalar. -/
def scalarToken (plain : Bool) (text : List Char) : Token := .scalar plain (String.ofList text)

/-- Reads a plain scalar. A key may follow it only on a new line. -/
def readPlainScalar (r : TokenReader) : Option TokenReader := do
  let r ← r.noteKey
  let (text, gap, rest) ← readPlain r.inFlow r.least {} r.rest
  some ((r.allowKey gap.endsLine).emit (scalarToken true text) |>.moveTo rest)

/-- Adds a scalar that has been read after its opening quote. -/
def readQuotedScalar (r : TokenReader) (scalar : QuotedRest) : Option TokenReader := do
  let r ← r.noteKey
  let (text, rest) ← scalar
  some ((r.allowKey false).emit (scalarToken false text) |>.moveTo rest)

/-- Reads a literal or folded block. -/
def readBlockScalar (r : TokenReader) (literal : Bool) (s : List Char) : Option TokenReader := do
  let r ← r.forgetKey
  let (text, rest) ← readBlock literal r.least s
  some ((r.allowKey true).emit (scalarToken false text) |>.moveTo rest)

/-! ## Tokens -/

/-- Reads the token that begins with `c`. -/
def readToken (r : TokenReader) (c : Char) (rest : List Char) : Option TokenReader :=
  if r.place.column == 0 && c == '%' then r.readDeclaration rest
  else if r.place.column == 0 && startsMark (c :: rest) then
    r.readMark (if c == '-' then .documentStart else .documentEnd)
  else if c == '[' then r.openFlow .openBracket
  else if c == '\x7b' then r.openFlow .openBrace
  else if c == ']' then r.closeFlow .closeBracket
  else if c == '\x7d' then r.closeFlow .closeBrace
  else if c == ',' then r.readComma
  else if c == '-' && blankFollows rest then r.readDash
  else if c == '?' && (r.inFlow || blankFollows rest) then r.readKey
  else if c == ':' && (r.inFlow || blankFollows rest) then r.readValue
  else if c == '*' then r.readAlias rest
  else if c == '&' then r.readAnchor rest
  else if c == '!' then r.readTagged rest
  else if c == '|' && !r.inFlow then r.readBlockScalar true rest
  else if c == '>' && !r.inFlow then r.readBlockScalar false rest
  else if c == '\'' then r.readQuotedScalar (readSingle {} rest)
  else if c == '"' then r.readQuotedScalar (readDouble {} rest)
  else if startsPlain r.inFlow c rest then r.readPlainScalar
  else none

/-- Reads all tokens. Each takes some of the fuel, of which one unit for each character and one for
the end are enough. -/
def run : Nat → TokenReader → Option (List Token)
  | 0, _ => none
  | fuel + 1, r =>
    r.toNextToken.refreshKeys.bind fun r =>
      match r.rest with
      | [] => (r.closeFrom 0).forgetKey.map fun r => r.tokens.reverse
      | c :: rest => ((r.closeFrom (r.place.column + 1)).readToken c rest).bind (run fuel)

end TokenReader

/-- The tokens of a text. -/
def tokens? (s : List Char) : Option (List Token) :=
  TokenReader.run (s.length + 1) { rest := s }

end CommandForest.Yaml
