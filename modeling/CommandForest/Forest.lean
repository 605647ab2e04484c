import CommandForest.Diagnostic

/-!
# CommandForest.Forest

All commands of a program, numbered in the order in which they were added:

* commands are only ever appended, so a number stays valid and its command keeps its place;
* `Forest.insert` is the one way in: it clears the children of the newcomer and lists it under its
  parent, or among the roots;
* `Forest.descendants` lists a subtree, depth first in the order of the children.
-/

namespace CommandForest

/-- A number names no command of the forest. -/
structure UnknownCommand where
  id : CommandId

/-- The wording of the refusal. -/
def UnknownCommand.message (e : UnknownCommand) : String :=
  "no command node with id " ++ e.id.describe

/-- Commands by number, the numbers of those without a parent, and the texts they send. -/
structure Forest where
  commands : Array Command := #[]
  roots : List CommandId := []
  messages : Messages := {}

namespace Forest

/-! ## Looking up -/

/-- How many commands there are. -/
def size (f : Forest) : Nat := f.commands.size

/-- The command of a number. -/
def find? (f : Forest) (id : CommandId) : Option Command := f.commands[id]?

/-- Whether a number names a command. -/
def has (f : Forest) (id : CommandId) : Bool := id < f.size

/-- The numbers beyond the size, and no others, name no command. -/
theorem find?_eq_none_iff {f : Forest} {id : CommandId} : f.find? id = none ↔ f.size ≤ id := by
  simp [find?, size]

/-- A number names a command exactly when one is found. -/
theorem has_iff {f : Forest} {id : CommandId} : f.has id = true ↔ ∃ c, f.find? id = some c := by
  rw [has, decide_eq_true_iff, ← Option.isSome_iff_exists]
  simp [find?, size]

/-- The first root with an alias. -/
def rootNamed? (f : Forest) (name : String) : Option CommandId :=
  f.roots.find? fun id => ((f.find? id).map fun c => c.answersTo name).getD false

/-- The hooks of all commands, in order and without repeats. -/
def hooks (f : Forest) : List String :=
  ((f.commands.toList.filterMap Command.hook).mergeSort fun a b => a ≤ b).eraseReps

/-! ## Growing and changing -/

/-- Changes one command. -/
def modify (f : Forest) (id : CommandId) (change : Command → Command) : Forest :=
  { f with commands := f.commands.modify id change }

/-- Changing a command adds none. -/
@[simp] theorem size_modify (f : Forest) (id : CommandId) (change : Command → Command) :
    (f.modify id change).size = f.size := by
  simp [modify, size]

/-- The changed command is found under its number. -/
theorem find?_modify_self (f : Forest) (id : CommandId) (change : Command → Command) :
    (f.modify id change).find? id = (f.find? id).map change := by
  simp [modify, find?, Array.getElem?_modify]

/-- The other commands stay as they are. -/
theorem find?_modify_of_ne (f : Forest) {id other : CommandId} (change : Command → Command)
    (h : other ≠ id) : (f.modify id change).find? other = f.find? other := by
  simp [modify, find?, Array.getElem?_modify, Ne.symm h]

/-- Lists a command under its parent, or among the roots. -/
def link (f : Forest) (id : CommandId) : Option CommandId → Forest
  | some parent => f.modify parent fun c => { c with children := c.children ++ [id] }
  | none => { f with roots := f.roots ++ [id] }

/-- Appends a command under a parent, or as a root. Its number is the size before. -/
def insert (f : Forest) (c : Command) (parent : Option CommandId) : Forest :=
  let newcomer := { c with parent := parent, children := [] }
  { f with commands := f.commands.push newcomer }.link f.size parent

/-- One command is added. -/
@[simp] theorem size_insert (f : Forest) (c : Command) (parent : Option CommandId) :
    (f.insert c parent).size = f.size + 1 := by
  cases parent <;> simp [insert, link, size, modify]

/-- The newcomer is found under the size before, with its parent and without children. -/
theorem find?_insert_size (f : Forest) (c : Command) (parent : Option CommandId)
    (h : parent ≠ some f.size) :
    (f.insert c parent).find? f.size = some { c with parent := parent, children := [] } := by
  cases parent with
  | none => simp [insert, link, find?, size]
  | some p =>
    have hp : f.size ≠ p := fun e => h (e ▸ rfl)
    rw [insert, link, find?_modify_of_ne _ _ hp]
    simp [find?, size]

/-- Appends a command under a parent that must exist. -/
def appendUnder (f : Forest) (parent : CommandId) (c : Command) :
    Except UnknownCommand (CommandId × Forest) :=
  if f.has parent then .ok (f.size, f.insert c (some parent)) else .error ⟨parent⟩

/-- Appends a command as a root. -/
def appendRoot (f : Forest) (c : Command) : CommandId × Forest := (f.size, f.insert c none)

/-! ## Names -/

/-- Climbs to the command whose name is shown; there are no more than `fuel` commands above. -/
def shownNameFrom (f : Forest) : Nat → CommandId → Option String
  | 0, _ => none
  | fuel + 1, id =>
    match f.find? id with
    | none => none
    | some c =>
      match c.parent with
      | some parent => if c.isAnonymous then f.shownNameFrom fuel parent else some c.name
      | none => some c.name

/-- The name a command is shown under. An anonymous command borrows the name of its parent. -/
def shownName (f : Forest) (id : CommandId) : Option String := f.shownNameFrom f.size id

/-! ## Subtrees -/

/-- Takes commands off the front of a list of pending ones, and puts their children there instead;
there are no more than `fuel` commands to come. -/
def preorderFrom (f : Forest) : Nat → List CommandId → List CommandId
  | _, [] => []
  | 0, _ => []
  | fuel + 1, id :: pending =>
    match f.find? id with
    | none => f.preorderFrom fuel pending
    | some c => id :: f.preorderFrom fuel (c.children ++ pending)

/-- A command and everything below it, depth first in the order of the children. -/
def descendants (f : Forest) (id : CommandId) : List CommandId := f.preorderFrom f.size [id]

/-! ## Providers and handlers -/

/-- Gives a provider to a command and everything below it at this moment. -/
def provide (f : Forest) (id : CommandId) (p : Provider) : Except UnknownCommand Forest :=
  if f.has id then
    .ok ((f.descendants id).foldl
      (fun f id => f.modify id fun c => { c with providers := c.providers.insert p }) f)
  else
    .error ⟨id⟩

/-- Binds a command and everything below it to the handlers of their hooks. -/
def bind (f : Forest) (id : CommandId) (handlers : Handlers) :
    Except UnknownCommand (Forest × List Diagnostic) :=
  if f.has id then
    let below := f.descendants id
    .ok (below.foldl (fun f id => f.modify id fun c => c.bind handlers) f,
      below.filterMap fun id => (f.find? id).bind fun c => c.bindReport handlers)
  else
    .error ⟨id⟩

end Forest

end CommandForest
