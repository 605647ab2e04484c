import CommandForest.Completion
import CommandForest.Dispatch

/-!
# CommandForest.Labels

The labels under which a host offers the root commands of a forest, in any case:

* registering stores a root under its qualified label `qualifier:label`, replacing what was there,
  and under the plain label if that is free;
* a line is a label and words, split at single spaces, after an optional slash.
-/

namespace CommandForest

/-! ## The table -/

/-- A root command and what a host says about it. -/
structure LabelEntry where
  root : CommandId
  description : String
deriving DecidableEq

/-- Root commands by label. -/
structure Labels where
  entries : List (String × LabelEntry) := []

namespace Labels

/-- The entry stored under a key. -/
def get? (ls : Labels) (key : String) : Option LabelEntry := ls.entries.lookup key

/-- Stores an entry in place of one with the same key. -/
def put (ls : Labels) (key : String) (entry : LabelEntry) : Labels :=
  ⟨(key, entry) :: ls.entries.filter fun old => old.1 != key⟩

/-- An entry just stored is found under its key. -/
theorem get?_put_self (ls : Labels) (key : String) (entry : LabelEntry) :
    (ls.put key entry).get? key = some entry := by
  simp [get?, put]

/-- Storing an entry leaves the other keys alone. -/
theorem get?_put_of_ne (ls : Labels) {key other : String} (entry : LabelEntry) (h : other ≠ key) :
    (ls.put key entry).get? other = ls.get? other := by
  have hb : (other == key) = false := by simp [h]
  simp only [get?, put, List.lookup_cons, hb]
  induction ls.entries with
  | nil => rfl
  | cons e es ih =>
    obtain ⟨k, v⟩ := e
    by_cases hk : k = key
    · subst hk
      simp [List.lookup_cons, hb, ih]
    · by_cases ho : other = k
      · subst ho; simp [hk]
      · simp [hk, List.lookup_cons, ih]

/-- The key of a qualified label. -/
def qualifiedKey (qualifier label : String) : String :=
  Text.lowered qualifier ++ ":" ++ Text.lowered label

/-- Stores a root under its qualified label, and under the plain one if that is free, which the
answer tells. -/
def register (ls : Labels) (qualifier label description : String) (root : CommandId) :
    Labels × Bool :=
  let entry : LabelEntry := ⟨root, description⟩
  let qualified := ls.put (qualifiedKey qualifier label) entry
  let plain := Text.lowered label
  if (qualified.get? plain).isSome then (qualified, false) else (qualified.put plain entry, true)

/-- The root of a label. -/
def resolve (ls : Labels) (label : String) : Option CommandId :=
  (ls.get? (Text.lowered label)).map LabelEntry.root

/-- All entries in the order of their labels. -/
def sorted (ls : Labels) : List (String × LabelEntry) :=
  ls.entries.mergeSort fun a b => a.1 ≤ b.1

/-- All labels in order. -/
def names (ls : Labels) : List String := ls.sorted.map Prod.fst

end Labels

/-! ## Registering commands -/

namespace Forest

/-- What a host says about a command. -/
def description (f : Forest) (c : Command) : String := c.help.getD f.messages.noHelp

/-- A forest and its labels after registration, and what was reported. -/
structure Registration where
  forest : Forest
  labels : Labels
  reports : List Diagnostic := []

/-- Binds a root and everything below it, and registers each of its aliases. -/
def register (f : Forest) (labels : Labels) (root : CommandId) (qualifier : String)
    (handlers : Handlers) : Except UnknownCommand Registration :=
  match f.bind root handlers with
  | .error e => .error e
  | .ok (bound, reports) =>
    match bound.find? root with
    | none => .error ⟨root⟩
    | some c =>
      let description := bound.description c
      .ok {
        forest := bound
        labels := c.aliases.foldl
          (fun ls name => (ls.register qualifier name description root).1) labels
        reports := reports }

/-- Registers these commands one after the other. -/
def registerEach (f : Forest) (labels : Labels) (qualifier : String) (handlers : Handlers) :
    List CommandId → Except UnknownCommand Registration
  | [] => .ok { forest := f, labels := labels }
  | root :: rest =>
    match f.register labels root qualifier handlers with
    | .error e => .error e
    | .ok first =>
      (registerEach first.forest first.labels qualifier handlers rest).map fun later =>
        { later with reports := first.reports ++ later.reports }

/-- Registers every root. -/
def registerRoots (f : Forest) (labels : Labels) (qualifier : String) (handlers : Handlers) :
    Except UnknownCommand Registration :=
  f.registerEach labels qualifier handlers f.roots

end Forest

/-! ## Lines -/

namespace Labels

/-- The words of a line between single spaces; some may be empty. One leading slash does not
count, and an empty line has no words. -/
def lineWords (line : String) : List String :=
  let body :=
    match line.toList with
    | '/' :: rest => rest
    | whole => whole
  if body.isEmpty then [] else (Text.pieces (· == ' ') body).map String.ofList

/-- Drops the empty words at the end. -/
def dropTrailingEmpty (words : List String) : List String :=
  (words.reverse.dropWhile String.isEmpty).reverse

/-- Runs words at the root of a label. -/
def dispatch (ls : Labels) (f : Forest) (sender : Sender) (label : String)
    (tokens : List String) : Outcome :=
  match ls.resolve label with
  | some root => f.execute root sender tokens
  | none => { handled := false, forest := f }

/-- Runs a line. -/
def runLine (ls : Labels) (f : Forest) (sender : Sender) (line : String) : Outcome :=
  match dropTrailingEmpty (lineWords line) with
  | label :: tokens => ls.dispatch f sender label tokens
  | [] => { handled := false, forest := f }

/-- Completes the last of the words at the root of a label. -/
def complete (ls : Labels) (f : Forest) (sender : Sender) (label : String)
    (tokens : List String) : Option (List String) × Forest :=
  match ls.resolve label with
  | some root => f.complete root sender tokens
  | none => (none, f)

/-- The labels that start with a partial one in any case, if there are any. -/
def completeLabel (ls : Labels) (label : String) : Option (List String) :=
  let found := ls.names.filter fun name => Text.begins (Text.lowered label) name
  if found.isEmpty then none else some found

/-- Completes the last word of a line, which is the label if there is no space. -/
def continueLine (ls : Labels) (f : Forest) (sender : Sender) (line : String) :
    Option (List String) × Forest :=
  match lineWords line with
  | [] => (none, f)
  | [label] => (ls.completeLabel label, f)
  | label :: tokens => ls.complete f sender label tokens

end Labels

end CommandForest
