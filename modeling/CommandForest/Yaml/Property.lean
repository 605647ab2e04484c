import CommandForest.Number.Integer
import CommandForest.Text.Pieces
import CommandForest.Yaml.Gap

/-!
# CommandForest.Yaml.Property

Reading the names of anchors, tags, and the directives at the start of a document. Of a tag only its
handle matters, which has to be declared; of a directive only what it declares.
-/

namespace CommandForest.Yaml

/-! ## Names -/

/-- Characters of names. -/
def isNameChar (c : Char) : Bool := c.isAlphanum || c == '_' || c == '-'

/-- Whether a name that is followed by `s` has ended. -/
def endsName (s : List Char) : Bool :=
  blankFollows s || (s.head?.map "?:,]\x7d%@\x60".toList.contains).getD false

/-- Reads the name of an anchor. -/
def readName (s : List Char) : Option (String × List Char) :=
  let name := s.takeWhile isNameChar
  let rest := s.dropWhile isNameChar
  if name.isEmpty || !endsName rest then none else some (String.ofList name, rest)

/-! ## Tags -/

/-- Characters that stand for themselves in a tag; some do so only between angle brackets. -/
def isTagChar (verbatim : Bool) (c : Char) : Bool :=
  isNameChar c || ";/?:@&=+$.!~*'()".toList.contains c || (verbatim && ",[]".toList.contains c)

/-- How many octets follow the first octet of a character. -/
def octetsAfter? (octet : Nat) : Option Nat :=
  if octet < 0x80 then some 0
  else if octet < 0xC0 then none
  else if octet < 0xE0 then some 1
  else if octet < 0xF0 then some 2
  else if octet < 0xF8 then some 3
  else none

/-- What follows the characters of a tag; `missing` octets of a character are still to come. -/
def afterTag? (verbatim : Bool) (missing : Nat) : List Char → Option (List Char)
  | '%' :: a :: b :: rest =>
    (Number.readDigits 16 [a, b]).bind fun octet =>
      match missing with
      | 0 => (octetsAfter? octet).bind fun n => afterTag? verbatim n rest
      | n + 1 => if 0x80 ≤ octet && octet < 0xC0 then afterTag? verbatim n rest else none
  | c :: rest =>
    if missing != 0 || c == '%' then none
    else if isTagChar verbatim c then afterTag? verbatim 0 rest
    else some (c :: rest)
  | [] => if missing == 0 then some [] else none

/-- What follows the characters of a tag that has some. -/
def afterFullTag? (verbatim : Bool) (s : List Char) : Option (List Char) :=
  (afterTag? verbatim 0 s).bind fun rest => if rest.length == s.length then none else some rest

/-- Reads a tag after its exclamation mark: the handle that it needs, if any, and what follows. -/
def readTag (s : List Char) : Option (Option String × List Char) :=
  match s with
  | '<' :: rest =>
    match afterFullTag? true rest with
    | some ('>' :: after) => some (none, after)
    | _ => none
  | s =>
    let word := s.takeWhile isNameChar
    match s.dropWhile isNameChar with
    | '!' :: rest =>
      (afterFullTag? false rest).map fun after => (some (String.ofList word), after)
    | rest => (afterTag? false 0 rest).map fun after => (none, after)

/-! ## Directives -/

/-- What a directive declares: the version of the format, or a handle for tags, which is a name
between exclamation marks or a lone one. -/
inductive Directive
  | version
  | handle (name : Option String)
deriving DecidableEq

/-- Reads a number of at most nine digits. -/
def readVersionNumber (s : List Char) : Option (Nat × List Char) :=
  let digits := s.takeWhile Char.isDigit
  if 9 < digits.length then none
  else (Number.readDigits 10 digits).map fun n => (n, s.dropWhile Char.isDigit)

/-- Reads a version, which has to be 1.1 or 1.2. -/
def readVersion (s : List Char) : Option (List Char) :=
  match readVersionNumber s with
  | some (1, '.' :: rest) =>
    match readVersionNumber rest with
    | some (minor, rest) => if minor == 1 || minor == 2 then some rest else none
    | none => none
  | _ => none

/-- Reads a handle for tags, and the start of the tags that it stands for. -/
def readHandle : List Char → Option (Option String × List Char)
  | '!' :: s =>
    let word := s.takeWhile isNameChar
    let declared :=
      match s.dropWhile isNameChar with
      | '!' :: rest => some (some (String.ofList word), rest)
      | rest => if word.isEmpty then some (none, rest) else none
    declared.bind fun (name, rest) =>
      let start := rest.dropWhile isInlineBlank
      if start.length == rest.length then none
      else
        (afterFullTag? true start).bind fun after =>
          if blankFollows after then some (name, after) else none
  | _ => none

/-- Reads a directive after its percent sign, with the line break at its end. -/
def readDirective (s : List Char) : Option (Directive × List Char) :=
  let word := s.takeWhile isNameChar
  let rest := s.dropWhile isNameChar
  if !blankFollows rest then none
  else
    let start := rest.dropWhile isInlineBlank
    let read : Option (Directive × List Char) :=
      if word == "YAML".toList then (readVersion start).map fun rest => (.version, rest)
      else if word == "TAG".toList then
        (readHandle start).map fun (name, rest) => (.handle name, rest)
      else none
    read.bind fun (directive, rest) =>
      if isIdle (rest.takeWhile fun c => !isBreak c) then
        some (directive, (rest.dropWhile fun c => !isBreak c).drop 1)
      else none

end CommandForest.Yaml
