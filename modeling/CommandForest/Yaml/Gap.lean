import CommandForest.Yaml.Scalar

/-!
# CommandForest.Yaml.Gap

The blanks and line breaks between two words of a scalar, and what they stand for:

* blanks within a line stand for themselves;
* a single line feed stands for a space, and further ones for themselves;
* after a line break that is escaped, only further breaks count.
-/

namespace CommandForest.Yaml

/-! ## Characters -/

/-- Blanks that do not end a line. -/
def isInlineBlank (c : Char) : Bool := c == ' ' || c == '\t'

/-- Whether a blank, a line break or the end of the text comes next. -/
def blankFollows (s : List Char) : Bool := (s.head?.map isBlankOrBreak).getD true

/-- Whether a line that starts here marks the start or the end of a document. -/
def startsMark : List Char → Bool
  | a :: b :: c :: rest => (a == '-' || a == '.') && b == a && c == a && blankFollows rest
  | _ => false

/-- Whether nothing but a comment is left on a row. -/
def isIdle (s : List Char) : Bool :=
  match s.dropWhile isInlineBlank with
  | [] => true
  | c :: _ => c == '#'

/-! ## Gaps -/

/-- The blanks and line breaks since the last word. -/
structure Gap where
  /-- The blanks before the first line break. -/
  blanks : List Char := []
  /-- Whether a line has ended. -/
  endsLine : Bool := false
  /-- The first line break, unless it was escaped. -/
  first : Option Char := none
  /-- The line breaks after the first. -/
  more : List Char := []
  /-- How many blanks follow the last line break. -/
  column : Nat := 0
  /-- The columns of the tabs that follow a line break. -/
  tabs : List Nat := []

namespace Gap

/-- The gap right after an escaped line break. -/
def escaped : Gap := { endsLine := true }

/-- Whether nothing has been passed. -/
def isEmpty (gap : Gap) : Bool := gap.blanks.isEmpty && !gap.endsLine

/-- The gap with one more blank or line break. -/
def push (gap : Gap) (c : Char) : Gap :=
  if isBreak c then
    if gap.endsLine then { gap with more := gap.more ++ [c], column := 0 }
    else { gap with endsLine := true, first := some c }
  else if gap.endsLine then
    { gap with
      column := gap.column + 1
      tabs := if c == '\t' then gap.column :: gap.tabs else gap.tabs }
  else { gap with blanks := gap.blanks ++ [c] }

/-- Whether a tab stands in the indentation of a line. -/
def hasTabBefore (gap : Gap) (indent : Nat) : Bool := gap.tabs.any (· < indent)

/-- What the gap stands for between two words. -/
def folded (gap : Gap) : List Char :=
  if !gap.endsLine then gap.blanks
  else if gap.first == some '\n' then
    if gap.more.isEmpty then [' '] else gap.more
  else gap.first.toList ++ gap.more

/-- Whether a new line starts here with the mark of a document. -/
def meetsMark (gap : Gap) (s : List Char) : Bool :=
  gap.endsLine && gap.column == 0 && startsMark s

end Gap

end CommandForest.Yaml
