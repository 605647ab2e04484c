import CommandForest.Yaml.Gap

/-!
# CommandForest.Yaml.Block

Reading literal and folded blocks. The first row holds hints: how far the content is indented, and
what becomes of the line breaks at its end. Without a hint, the widest of the rows up to the first
that holds a text gives the indentation. The block ends before a row that is indented less.
-/

namespace CommandForest.Yaml

/-! ## Rows -/

/-- A row of a text: what it holds, and the line break at its end, if there is one. -/
structure Row where
  text : List Char
  ending : List Char

/-- The rows of a text. -/
def rows : List Char → List Row
  | [] => []
  | c :: rest =>
    if isBreak c then ⟨[], [c]⟩ :: rows rest
    else
      match rows rest with
      | [] => [⟨[c], []⟩]
      | row :: more => { row with text := c :: row.text } :: more

/-- The text that rows make up. -/
def unrows (rs : List Row) : List Char := rs.flatMap fun row => row.text ++ row.ending

/-- How many spaces a row starts with. -/
def Row.indentation (row : Row) : Nat := (row.text.takeWhile isSpace).length

/-! ## Hints -/

/-- What becomes of the line breaks at the end of a block. -/
inductive BlockEnd
  | strip
  | clip
  | keep
deriving DecidableEq

/-- The end of a block that a hint asks for. -/
def BlockEnd.ofHint? (c : Char) : Option BlockEnd :=
  if c == '+' then some .keep else if c == '-' then some .strip else none

/-- The width that a hint gives. -/
def widthHint? (c : Char) : Option Nat := if c.isDigit then some (c.toNat - '0'.toNat) else none

/-- Reads the hints of a block, in either order, and what follows them on the row. -/
def readHints : List Char → BlockEnd × Option Nat × List Char
  | [] => (.clip, none, [])
  | c :: rest =>
    match BlockEnd.ofHint? c, widthHint? c with
    | some ending, _ =>
      match rest.head?.bind widthHint? with
      | some width => (ending, some width, rest.tail)
      | none => (ending, none, rest)
    | none, some width =>
      match rest.head?.bind BlockEnd.ofHint? with
      | some ending => (ending, some width, rest.tail)
      | none => (.clip, some width, rest)
    | none, none => (.clip, none, c :: rest)

/-! ## Indentation -/

/-- The widest indentation up to the first row that holds a text, in which no tab may stand. -/
def widestIndentation : List Row → Option Nat
  | [] => some 0
  | row :: more =>
    match row.text.drop row.indentation with
    | [] => (widestIndentation more).map (max row.indentation)
    | c :: _ => if c == '\t' then none else some row.indentation

/-- The indentation of a block whose content has to be indented to `least`. -/
def blockIndentation (least : Nat) (hint : Option Nat) (rs : List Row) : Option Nat :=
  match hint with
  | some 0 => none
  | some width => some (least - 1 + width)
  | none => (widestIndentation rs).map fun width => max (max width least) 1

/-- The rows of a block without their indentation, and the rows that follow it. -/
def takeBlock (indent : Nat) : List Row → Option (List Row × List Row)
  | [] => some ([], [])
  | row :: more =>
    match row.text.drop (min row.indentation indent), row.ending with
    | [], [] => some ([], row :: more)
    | [], ending =>
      (takeBlock indent more).map fun (block, after) => (⟨[], ending⟩ :: block, after)
    | c :: text, ending =>
      if indent ≤ row.indentation then
        (takeBlock indent more).map fun (block, after) => (⟨c :: text, ending⟩ :: block, after)
      else if c == '\t' then none
      else some ([], row :: more)

/-! ## Content -/

/-- Whether a row starts with a blank. -/
def startsBlank (s : List Char) : Bool := (s.head?.map isInlineBlank).getD false

/-- What the line breaks before a row stand for. If they fold, the first of them is a space when it
is a line feed and the only one, and nothing when it is a line feed and others follow. -/
def joinRows (folds : Bool) (breaks : List Char) : List Char :=
  match folds, breaks with
  | true, ['\n'] => [' ']
  | true, '\n' :: more => more
  | _, breaks => breaks

/-- The text of a block after `breaks`, and the line breaks at its end. `last` tells whether the row
before starts with a blank, if there is one. Between two rows that start with no blank, the breaks
of a folded block fold. -/
def joinBlock (literal : Bool) (last : Option Bool) (breaks : List Char) :
    List Row → List Char × List Char
  | [] => ([], breaks)
  | row :: more =>
    if row.text.isEmpty then joinBlock literal last (breaks ++ row.ending) more
    else
      let blank := startsBlank row.text
      let (text, final) := joinBlock literal (some blank) row.ending more
      (joinRows (!literal && last == some false && !blank) breaks ++ row.text ++ text, final)

/-- What is left of the line breaks at the end of a block; `bare` tells that it has no text. -/
def BlockEnd.apply (ending : BlockEnd) (bare : Bool) (breaks : List Char) : List Char :=
  match ending with
  | .strip => []
  | .clip => if bare then [] else breaks.take 1
  | .keep => breaks

/-- Reads a block after its bar or arrow. -/
def readBlock (literal : Bool) (least : Nat) (s : List Char) : Option (List Char × List Char) :=
  let (ending, hint, after) := readHints (s.takeWhile fun c => !isBreak c)
  let body := rows ((s.dropWhile fun c => !isBreak c).drop 1)
  if !isIdle after then none
  else
    (blockIndentation least hint body).bind fun indent =>
      (takeBlock indent body).map fun (block, rest) =>
        let (text, breaks) := joinBlock literal none [] block
        (text ++ ending.apply text.isEmpty breaks, unrows rest)

end CommandForest.Yaml
