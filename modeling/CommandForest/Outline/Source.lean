import CommandForest.Outline

/-!
# CommandForest.Outline.Source

Writing outlines as definitions: a header, then the directives in a fixed order, then the commands
below, four spaces deeper, then the closing brace.
-/

namespace CommandForest.Outline

/-- A line at this depth. -/
def indented (depth : Nat) (text : List Char) : List Char := List.replicate (4 * depth) ' ' ++ text

/-- The header without its brace. -/
def header (o : Outline) : List Char :=
  (Text.joined "," o.aliases).toList ++ o.parameters.flatMap fun token => ' ' :: token.toList

/-- The lines that describe a command. -/
def directives (o : Outline) : List (List Char) :=
  (o.hook.map fun s => "hook ".toList ++ s.toList).toList ++
    (o.permission.map fun s => "permission ".toList ++ s.toList).toList ++
    (if o.audience = .everyone then [] else ["users ".toList ++ o.audience.word.toList]) ++
    (o.help.map fun s => "help ".toList ++ s.toList).toList ++
    if o.hidesSubcommands then ["hidesub".toList] else []

mutual

/-- The lines of a command at this depth. -/
def sourceLines (depth : Nat) : Outline → List (List Char)
  | ⟨a₁, a₂, a₃, a₄, a₅, a₆, a₇, children⟩ =>
    let head : Outline := ⟨a₁, a₂, a₃, a₄, a₅, a₆, a₇, []⟩
    indented depth (head.header ++ [' ', '\x7b']) ::
      head.directives.map (indented (depth + 1)) ++
      sourceLinesOfAll (depth + 1) children ++ [indented depth ['\x7d']]

/-- The lines of several commands. -/
def sourceLinesOfAll (depth : Nat) : List Outline → List (List Char)
  | [] => []
  | o :: rest => sourceLines depth o ++ sourceLinesOfAll depth rest

end

/-- Lines with a line feed after each. -/
def unlines (lines : List (List Char)) : List Char := lines.flatMap (· ++ ['\n'])

/-- The definition of one command. -/
def toSource (o : Outline) : String := String.ofList (unlines (sourceLines 0 o))

/-- The definition of several commands. -/
def sourceOfAll (os : List Outline) : String := String.ofList (unlines (sourceLinesOfAll 0 os))

end CommandForest.Outline
