import CommandForest.Definition.Line
import CommandForest.Diagnostic

/-!
# CommandForest.Definition

Reading a definition, which is a sequence of commands in braces:

* `Declaration.readBody` reads a command from the line after its header to its closer, and the
  commands inside it on the way;
* lines between the outermost commands are ignored unless they open one;
* a command that is never closed is dropped together with all that follows and the commands around
  it, and the innermost one of these is reported;
* an error anywhere makes the whole definition fail.
-/

namespace CommandForest

/-- A command as declared, with the commands declared inside it. -/
inductive Declaration
  | mk (command : Command) (children : List Declaration)

/-- How far a command could be read. -/
inductive Reading
  | closed (d : Declaration) (rest : List Line)
  /-- The definition ended in the body of this command, whose header stands on this line. -/
  | unclosed (command : String) (line : Nat)

namespace Declaration

/-! ## One command -/

/-- Reads on in the body of the command `c`, whose header is line `header`, after the commands
`below`. There are no more than `fuel` lines to come. -/
def readBody (fuel header : Nat) (c : Command) (below : List Declaration) (lines : List Line) :
    Except DefinitionError Reading :=
  match fuel, lines with
  | fuel + 1, l :: rest =>
    if l.opens then
      match l.readHeader with
      | .error e => .error e
      | .ok child =>
        match readBody fuel l.number child [] rest with
        | .error e => .error e
        | .ok (.unclosed command line) => .ok (.unclosed command line)
        | .ok (.closed d after) => readBody fuel header c (below ++ [d]) after
    else if l.closes then
      .ok (.closed (.mk c below) rest)
    else
      match l.describe c with
      | .error e => .error e
      | .ok c => readBody fuel header c below rest
  | _, _ => .ok (.unclosed c.name header)

/-- Reads the command that a header opens. -/
def read (header : Line) (rest : List Line) : Except DefinitionError Reading :=
  match header.readHeader with
  | .error e => .error e
  | .ok c => readBody rest.length header.number c [] rest

end Declaration

/-! ## Definitions -/

/-- The outermost commands of a definition, and the report of one that is never closed. -/
structure Definition where
  commands : List Declaration
  report : Option Diagnostic := none

namespace Definition

/-- Reads commands until the lines run out, at most `limit` of them. There are no more than `fuel`
lines. -/
def readLines : (fuel limit : Nat) → List Line → Except DefinitionError Definition
  | fuel + 1, limit + 1, l :: rest =>
    if l.opens then
      match Declaration.read l rest with
      | .error e => .error e
      | .ok (.unclosed command line) => .ok ⟨[], some (.unclosed command line)⟩
      | .ok (.closed d after) =>
        (readLines fuel limit after).map fun more => ⟨d :: more.commands, more.report⟩
    else
      readLines fuel (limit + 1) rest
  | _, _, _ => .ok ⟨[], none⟩

/-- Reads every command of a definition. -/
def read (source : String) : Except DefinitionError Definition :=
  let lines := Line.ofSource source.toList
  readLines lines.length lines.length lines

/-- Reads the first command of a definition and looks no further. -/
def readFirst (source : String) : Except DefinitionError Definition :=
  let lines := Line.ofSource source.toList
  readLines lines.length 1 lines

/-- The text of bytes that should hold a definition. -/
def decode (bytes : ByteArray) : Except DefinitionError String :=
  match String.fromUTF8? bytes with
  | some source => .ok source
  | none => .error (.unreadable DefinitionError.invalidBytes)

/-- Reads the definition that bytes hold. -/
def readBytes (bytes : ByteArray) : Except DefinitionError Definition :=
  match decode bytes with
  | .ok source => read source
  | .error e => .error e

end Definition

end CommandForest
