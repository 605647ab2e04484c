import CommandForest.Definition
import CommandForest.Forest

/-!
# CommandForest.Load

Declared commands become part of a forest: parents before their children, depth first, so the
numbers follow the order of the headers.
-/

namespace CommandForest

namespace Forest

mutual

/-- Appends a declared command and then those inside it, depth first. -/
def plant (parent : Option CommandId) (f : Forest) : Declaration → Forest
  | .mk c children => plantAll (some f.size) (f.insert c parent) children

/-- Appends declared commands one after the other. -/
def plantAll (parent : Option CommandId) (f : Forest) : List Declaration → Forest
  | [] => f
  | d :: rest => plantAll parent (plant parent f d) rest

end

/-- Appends declared commands as roots, and lists their numbers. -/
def plantRoots (f : Forest) : List Declaration → List CommandId × Forest
  | [] => ([], f)
  | d :: rest =>
    let (ids, grown) := plantRoots (f.plant none d) rest
    (f.size :: ids, grown)

/-- Reads a definition and appends its commands as roots. Nothing is appended if it has an error. -/
def load (f : Forest) (source : String) :
    Except DefinitionError (List CommandId × Forest × Option Diagnostic) :=
  (Definition.read source).map fun definition =>
    let (ids, grown) := f.plantRoots definition.commands
    (ids, grown, definition.report)

/-- The forest of a definition. -/
def ofDefinition (d : Definition) : Forest := ({} : Forest).plantAll none d.commands

end Forest

end CommandForest
