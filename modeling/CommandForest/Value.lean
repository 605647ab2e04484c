import CommandForest.Number.Shortest
import CommandForest.Text.Pieces

/-!
# CommandForest.Value

What conversion makes of the words of a command line:

* `Payload` is the product of a type provider, tagged with its kind;
* `Value` is a text, a whole number, a floating-point number or a payload;
* `ValueKind` is what a handler may ask for, and `kindList` and `slotList` list kinds in
  diagnostics.
-/

namespace CommandForest

/-! ## Payloads -/

/-- The kind of a provider's products. Two kinds of texts with names of their own differ when their
names do. -/
inductive PayloadKind
  | text
  | word
  | named (name : String)
deriving DecidableEq

namespace PayloadKind

/-- What a product of this kind holds. -/
abbrev Carrier : PayloadKind → Type
  | text => String
  | word => UInt32
  | named _ => String

/-- The name that diagnostics show. -/
def describe : PayloadKind → String
  | text => "alloc::string::String"
  | word => "u32"
  | named name => name

/-- A product as text. -/
def render : (kind : PayloadKind) → kind.Carrier → String
  | text, s => s
  | word, n => toString n.toNat
  | named _, s => s

end PayloadKind

/-- A product of a type provider. -/
structure Payload where
  kind : PayloadKind
  content : kind.Carrier

namespace Payload

/-- The text, if the payload is one without a name of its own. -/
def text? : Payload → Option String
  | ⟨.text, s⟩ => some s
  | _ => none

/-- The word, if the payload is one. -/
def word? : Payload → Option UInt32
  | ⟨.word, n⟩ => some n
  | _ => none

/-- The text of a payload whose kind has this name. -/
def named? (name : String) : Payload → Option String
  | ⟨.named n, s⟩ => if n = name then some s else none
  | _ => none

end Payload

/-! ## Values and their kinds -/

/-- The kind of a value. -/
inductive ValueKind
  | string
  | int
  | double
  | custom (kind : PayloadKind)
deriving DecidableEq

/-- A converted argument. -/
inductive Value
  | string (s : String)
  | int (n : Int64)
  | double (x : Number.Binary64)
  | custom (payload : Payload)

namespace ValueKind

/-- The name that diagnostics show. -/
def describe : ValueKind → String
  | string => "String"
  | int => "i64"
  | double => "f64"
  | custom kind => kind.describe

end ValueKind

namespace Value

/-- The kind of a value. -/
def kind : Value → ValueKind
  | string _ => .string
  | int _ => .int
  | double _ => .double
  | custom payload => .custom payload.kind

/-- The text of a value; a payload shows its kind alone. -/
def render : Value → String
  | string s => s
  | int n => toString n.toInt
  | double x => x.render
  | custom payload => "<" ++ payload.kind.describe ++ ">"

/-- The text of a value; a payload shows a label for its kind and what it holds. -/
def reveal (label : PayloadKind → String) : Value → String
  | custom payload => label payload.kind ++ ":" ++ payload.kind.render payload.content
  | v => v.render

/-- The text, if the value is one. -/
def string? : Value → Option String
  | string s => some s
  | _ => none

/-- The whole number, if the value is one. -/
def int? : Value → Option Int64
  | int n => some n
  | _ => none

/-- The floating-point number, if the value is one. -/
def double? : Value → Option Number.Binary64
  | double x => some x
  | _ => none

/-- The product of a type provider, if the value is one. -/
def payload? : Value → Option Payload
  | custom payload => some payload
  | _ => none

end Value

/-! ## Lists of kinds in diagnostics -/

/-- Kinds with commas between them. -/
def kindList (kinds : List ValueKind) : String :=
  Text.joined ", " (kinds.map ValueKind.describe)

/-- Kinds with commas between them, and a question mark for one that is not known. -/
def slotList (slots : List (Option ValueKind)) : String :=
  Text.joined ", " (slots.map fun slot => (slot.map ValueKind.describe).getD "?")

end CommandForest
