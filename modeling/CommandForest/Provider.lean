import CommandForest.Number.Integer
import CommandForest.Sender
import CommandForest.Text.Blank
import CommandForest.Text.LowerCase
import CommandForest.Value

/-!
# CommandForest.Provider

Type providers convert words for parameters of a custom type and offer completions:

* a `Provider` names the kind of its products, so every product has that kind;
* `Provider.complete` keeps the offers that continue a partial word, in any case;
* `Providers` is what one command sees, one provider for each name.
-/

namespace CommandForest

/-- A named converter, with the words it offers to a sender if it completes at all. -/
structure Provider where
  name : String
  kind : PayloadKind
  convert : String → Option kind.Carrier
  offers : Option (Sender → List String)

namespace Provider

/-- The product for a word, if the provider accepts it. -/
def payload? (p : Provider) (token : String) : Option Payload :=
  (p.convert token).map fun content => ⟨p.kind, content⟩

/-- Every product has the provider's kind. -/
theorem kind_of_payload? {p : Provider} {token : String} {payload : Payload}
    (h : p.payload? token = some payload) : payload.kind = p.kind := by
  obtain ⟨content, _, rfl⟩ := Option.map_eq_some_iff.mp h
  rfl

/-- The offers for a sender that start with the partial word in any case; blanks around the partial
word do not count. -/
def complete (p : Provider) (partialWord : String) (sender : Sender) : List String :=
  match p.offers with
  | none => []
  | some offers =>
    let start := Text.lowered (Text.trimmed partialWord)
    (offers sender).filter fun candidate => Text.begins start (Text.lowered candidate)

/-! ## Ready-made providers -/

/-- Takes every word as it is. -/
def anyText (name : String) (offers : Option (Sender → List String)) : Provider where
  name := name
  kind := .text
  convert token := some token
  offers := offers

/-- Takes even numbers of 32 bits. -/
def evenWord (name : String) (offers : Option (Sender → List String)) : Provider where
  name := name
  kind := .word
  convert token := (Number.readUInt32 token.toList).filter fun n => n % 2 == 0
  offers := offers

/-- Takes exactly the given words; its products have a kind of their own. -/
def oneOf (name kindName : String) (values : List String)
    (offers : Option (Sender → List String)) : Provider where
  name := name
  kind := .named kindName
  convert token := if values.contains token then some token else none
  offers := offers

/-- Takes the given words in any ASCII case, offers them, and answers with the first that fits in
its own spelling. -/
def choiceOf (name : String) (values : List String) : Provider where
  name := name
  kind := .text
  convert token := values.find? fun value => Text.eqIgnoringAsciiCase value token
  offers := some fun _ => values

end Provider

/-! ## The providers a command sees -/

/-- Providers by name. -/
structure Providers where
  entries : List Provider := []

namespace Providers

/-- The provider of a name. -/
def find? (ps : Providers) (name : String) : Option Provider :=
  ps.entries.find? fun p => p.name == name

/-- Adds a provider in place of one with the same name. -/
def insert (ps : Providers) (p : Provider) : Providers :=
  ⟨p :: ps.entries.filter fun q => q.name != p.name⟩

/-- How many names have a provider. -/
def size (ps : Providers) : Nat := ps.entries.length

/-- A provider just added is found under its name. -/
@[simp] theorem find?_insert_self (ps : Providers) (p : Provider) :
    (ps.insert p).find? p.name = some p := by
  simp [find?, insert]

/-- Adding a provider leaves the other names alone. -/
theorem find?_insert_of_ne (ps : Providers) {p : Provider} {name : String} (h : p.name ≠ name) :
    (ps.insert p).find? name = ps.find? name := by
  have hp : (p.name == name) = false := by simp [h]
  simp only [find?, insert, List.find?_cons, hp, List.find?_filter]
  congr 1
  funext q
  by_cases hq : q.name = name
  · simp [hq, Ne.symm h]
  · simp [hq]

end Providers

end CommandForest
