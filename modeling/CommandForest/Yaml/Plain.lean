import CommandForest.Yaml.Gap

/-!
# CommandForest.Yaml.Plain

Reading scalars that stand without quotes. Such a scalar may go on over several lines. It ends

* before a colon with a blank after it, and before a comment;
* in block style before a line that is not indented to `least`, in flow style before a bracket, a
  brace or a comma;
* before the mark of a document.
-/

namespace CommandForest.Yaml

/-- Characters that end a plain scalar between brackets. -/
def isFlowMark (c : Char) : Bool := ",[]\x7b\x7d".toList.contains c

/-- Whether a plain scalar may start with `c` before `after`. -/
def startsPlain (flow : Bool) (c : Char) (after : List Char) : Bool :=
  if c == '-' then !(after.head?.map isInlineBlank).getD false
  else if c == '?' || c == ':' then !flow && !blankFollows after
  else !isIndicator c && !isBlankOrBreak c

/-- Whether a plain scalar ends before `c`, which stands between `gap` and `after`. -/
def endsPlain (flow : Bool) (least : Nat) (gap : Gap) (c : Char) (after : List Char) : Bool :=
  (!flow && gap.endsLine && gap.column < least) || gap.meetsMark (c :: after) ||
    (!gap.isEmpty && c == '#') || (c == ':' && blankFollows after) || (flow && isFlowMark c)

/-- Whether `c` is a colon between brackets that belongs neither to a scalar nor to a key. -/
def isStrayColon (flow : Bool) (c : Char) (after : List Char) : Bool :=
  flow && c == ':' && (after.head?.map fun d => d == '?' || isFlowMark d).getD false

/-- Reads the rest of a plain scalar after `gap`. Its text comes with the gap that follows it and
with what is left. -/
def readPlain (flow : Bool) (least : Nat) (gap : Gap) :
    List Char → Option (List Char × Gap × List Char)
  | [] => if gap.hasTabBefore least then none else some ([], gap, [])
  | c :: rest =>
    if isBlankOrBreak c then readPlain flow least (gap.push c) rest
    else if gap.hasTabBefore least then none
    else if endsPlain flow least gap c rest then some ([], gap, c :: rest)
    else if isStrayColon flow c rest then none
    else
      (readPlain flow least {} rest).map fun (text, after) => (gap.folded ++ c :: text, after)

end CommandForest.Yaml
