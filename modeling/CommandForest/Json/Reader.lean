import CommandForest.Json
import CommandForest.Number.Integer

/-!
# CommandForest.Json.Reader

Reading JSON texts by the strict grammar: one value between blanks, no comma after the last item,
no control character in a string.
-/

namespace CommandForest.Json

/-! ## Blanks and strings -/

/-- The characters that may stand between tokens. -/
def isSpace (c : Char) : Bool := c == ' ' || c == '\t' || c == '\n' || c == '\r'

/-- The text from its first token on. -/
def skipSpaces (s : List Char) : List Char := s.dropWhile isSpace

/-- The number that four hexadecimal digits write. -/
def codeUnit? (a b c d : Char) : Option Nat := Number.readDigits 16 [a, b, c, d]

/-- The first unit of a surrogate pair. -/
def isHighSurrogate (n : Nat) : Bool := 0xD800 ≤ n && n < 0xDC00

/-- The second unit of a surrogate pair. -/
def isLowSurrogate (n : Nat) : Bool := 0xDC00 ≤ n && n < 0xE000

/-- The character of a surrogate pair. -/
def ofSurrogates (high low : Nat) : Char :=
  Char.ofNat (0x10000 + (high - 0xD800) * 0x400 + (low - 0xDC00))

/-- The character that a letter after a backslash stands for. -/
def escapedChar? (c : Char) : Option Char :=
  if c == '"' || c == '\\' || c == '/' then some c
  else if c == 'b' then some '\x08'
  else if c == 'f' then some '\x0c'
  else if c == 'n' then some '\n'
  else if c == 'r' then some '\r'
  else if c == 't' then some '\t'
  else none

/-- A string as read so far: its text, if it has one, and what follows the closing quote. -/
abbrev StringRest := Option (Option (List Char) × List Char)

/-- Puts a character before a string. -/
def StringRest.push (c : Char) (r : StringRest) : StringRest :=
  r.map fun (text, rest) => (text.map (c :: ·), rest)

/-- A string with half of a surrogate pair has no text. -/
def StringRest.break (r : StringRest) : StringRest := r.map fun (_, rest) => (none, rest)

/-- Reads a string after its opening quote. -/
def readString : List Char → StringRest
  | [] => none
  | '"' :: rest => some (some [], rest)
  | '\\' :: 'u' :: a :: b :: c :: d :: rest =>
    match codeUnit? a b c d with
    | none => none
    | some unit =>
      if isLowSurrogate unit then (readString rest).break
      else if isHighSurrogate unit then
        match rest with
        | '\\' :: 'u' :: e :: f :: g :: h :: after =>
          match codeUnit? e f g h with
          | none => none
          | some low =>
            if isLowSurrogate low then (readString after).push (ofSurrogates unit low)
            else (readString after).break
        | rest => (readString rest).break
      else (readString rest).push (Char.ofNat unit)
  | '\\' :: c :: rest =>
    match escapedChar? c with
    | some x => (readString rest).push x
    | none => none
  | c :: rest => if c.toNat < 0x20 then none else (readString rest).push c

/-! ## Numbers -/

/-- What follows a non-empty run of digits. -/
def afterDigits? : List Char → Option (List Char)
  | c :: rest => if c.isDigit then some (rest.dropWhile Char.isDigit) else none
  | [] => none

/-- What follows the whole part of a number, which has no idle zero in front. -/
def afterWhole? : List Char → Option (List Char)
  | '0' :: c :: rest => if c.isDigit then none else some (c :: rest)
  | s => afterDigits? s

/-- What follows an optional fraction. -/
def afterFraction? : List Char → Option (List Char)
  | '.' :: rest => afterDigits? rest
  | s => some s

/-- What follows an optional exponent. -/
def afterExponent? : List Char → Option (List Char)
  | c :: rest =>
    if c == 'e' || c == 'E' then
      match rest with
      | '+' :: digits | '-' :: digits => afterDigits? digits
      | digits => afterDigits? digits
    else
      some (c :: rest)
  | [] => some []

/-- Reads a number. -/
def readNumber (s : List Char) : Option (Json × List Char) :=
  let unsigned :=
    match s with
    | '-' :: rest => rest
    | s => s
  (((afterWhole? unsigned).bind afterFraction?).bind afterExponent?).map fun rest =>
    (number (String.ofList (s.take (s.length - rest.length))), rest)

/-! ## Values -/

/-- The text of a string as a `String`. -/
def ofText (text : Option (List Char)) : Option String := text.map String.ofList

mutual

/-- Reads a value. Each step takes some of the fuel, of which two units for each character are
enough. -/
def readValue : Nat → List Char → Option (Json × List Char)
  | 0, _ => none
  | fuel + 1, s =>
    match skipSpaces s with
    | '"' :: rest => (readString rest).map fun (text, rest) => (string (ofText text), rest)
    | '[' :: rest =>
      match skipSpaces rest with
      | ']' :: rest => some (array [], rest)
      | _ => (readItems fuel rest).map fun (items, rest) => (array items, rest)
    | '\x7b' :: rest =>
      match skipSpaces rest with
      | '\x7d' :: rest => some (object [], rest)
      | _ => (readFields fuel rest).map fun (fields, rest) => (object fields, rest)
    | 'n' :: 'u' :: 'l' :: 'l' :: rest => some (null, rest)
    | 't' :: 'r' :: 'u' :: 'e' :: rest => some (bool true, rest)
    | 'f' :: 'a' :: 'l' :: 's' :: 'e' :: rest => some (bool false, rest)
    | s => readNumber s

/-- Reads the items of an array that has some, up to its closing bracket. -/
def readItems : Nat → List Char → Option (List Json × List Char)
  | 0, _ => none
  | fuel + 1, s =>
    match readValue fuel s with
    | none => none
    | some (value, rest) =>
      match skipSpaces rest with
      | ',' :: rest => (readItems fuel rest).map fun (items, rest) => (value :: items, rest)
      | ']' :: rest => some ([value], rest)
      | _ => none

/-- Reads the fields of an object that has some, up to its closing brace. -/
def readFields : Nat → List Char → Option (List (Option String × Json) × List Char)
  | 0, _ => none
  | fuel + 1, s =>
    match skipSpaces s with
    | '"' :: rest =>
      match readString rest with
      | none => none
      | some (key, rest) =>
        match skipSpaces rest with
        | ':' :: rest =>
          match readValue fuel rest with
          | none => none
          | some (value, rest) =>
            match skipSpaces rest with
            | ',' :: rest =>
              (readFields fuel rest).map fun (fields, rest) => ((ofText key, value) :: fields, rest)
            | '\x7d' :: rest => some ([(ofText key, value)], rest)
            | _ => none
        | _ => none
    | _ => none

end

/-- Reads a text that holds one value. -/
def read (text : String) : Option Json :=
  let s := text.toList
  match readValue (2 * s.length + 2) s with
  | some (value, rest) => if (skipSpaces rest).isEmpty then some value else none
  | none => none

end CommandForest.Json
