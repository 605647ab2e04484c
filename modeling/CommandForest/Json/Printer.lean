import CommandForest.Json

/-!
# CommandForest.Json.Printer

Writing JSON values over several lines: each item on a line of its own, two spaces deeper than what
it belongs to, and nothing between the brackets of an empty value. Characters beyond ASCII stand for
themselves.
-/

namespace CommandForest.Json

/-! ## Strings -/

/-- A digit from `0` to `f`. -/
def hexDigit (n : Nat) : Char := (Nat.toDigits 16 n).headD '0'

/-- The written form of one character of a string. -/
def escapeChar (c : Char) : List Char :=
  if c == '"' || c == '\\' then ['\\', c]
  else if c == '\x08' then ['\\', 'b']
  else if c == '\x0c' then ['\\', 'f']
  else if c == '\n' then ['\\', 'n']
  else if c == '\r' then ['\\', 'r']
  else if c == '\t' then ['\\', 't']
  else if c.toNat < 0x20 then
    ['\\', 'u', '0', '0', hexDigit (c.toNat / 16), hexDigit (c.toNat % 16)]
  else [c]

/-- A text between quotes. -/
def writeText (s : List Char) : List Char := '"' :: s.flatMap escapeChar ++ ['"']

/-- A key or string; one without a text is written empty. -/
def writeString (text : Option String) : List Char := writeText (text.getD "").toList

/-! ## Values -/

/-- A line feed and the spaces before an item at this depth. -/
def newLine (depth : Nat) : List Char := '\n' :: List.replicate (2 * depth) ' '

/-- Items with commas between them, each on a line at this depth. -/
def onLines (depth : Nat) (items : List (List Char)) : List Char :=
  List.intercalate [','] (items.map (newLine depth ++ ·))

mutual

/-- Writes a value whose own line is at this depth. -/
def write (depth : Nat) : Json → List Char
  | null => "null".toList
  | bool true => "true".toList
  | bool false => "false".toList
  | number literal => literal.toList
  | string text => writeString text
  | array [] => ['[', ']']
  | array (item :: items) =>
    '[' :: onLines (depth + 1) (writeItems (depth + 1) (item :: items)) ++ newLine depth ++ [']']
  | object [] => ['\x7b', '\x7d']
  | object (field :: fields) =>
    '\x7b' :: onLines (depth + 1) (writeFields (depth + 1) (field :: fields)) ++ newLine depth ++
      ['\x7d']

/-- The written items of an array. -/
def writeItems (depth : Nat) : List Json → List (List Char)
  | [] => []
  | item :: items => write depth item :: writeItems depth items

/-- The written fields of an object. -/
def writeFields (depth : Nat) : List (Option String × Json) → List (List Char)
  | [] => []
  | (key, value) :: fields =>
    (writeString key ++ ": ".toList ++ write depth value) :: writeFields depth fields

end

/-- The text of a value. -/
def render (value : Json) : String := String.ofList (write 0 value)

end CommandForest.Json
