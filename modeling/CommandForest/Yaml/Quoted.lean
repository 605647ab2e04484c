import CommandForest.Number.Integer
import CommandForest.Yaml.Gap

/-!
# CommandForest.Yaml.Quoted

Reading scalars between quotes, which may go on over several lines. Between single quotes, a quote
is written twice; between double quotes, a backslash starts an escape. The mark of a document may
not stand inside.
-/

namespace CommandForest.Yaml

/-- A quoted scalar: its text, and what follows the closing quote. -/
abbrev QuotedRest := Option (List Char × List Char)

/-- Puts a text before a scalar. -/
def QuotedRest.prepend (s : List Char) (r : QuotedRest) : QuotedRest :=
  r.map fun (text, rest) => (s ++ text, rest)

/-- Reads a scalar after its opening single quote; `gap` precedes what is left. -/
def readSingle (gap : Gap) : List Char → QuotedRest
  | [] => none
  | '\'' :: '\'' :: rest => (readSingle {} rest).prepend (gap.folded ++ ['\''])
  | '\'' :: rest => some (gap.folded, rest)
  | c :: rest =>
    if isBlankOrBreak c then readSingle (gap.push c) rest
    else if gap.meetsMark (c :: rest) then none
    else (readSingle {} rest).prepend (gap.folded ++ [c])

/-- The character that hexadecimal digits stand for. -/
def codePoint? (digits : List Char) : Option Char :=
  (Number.readDigits 16 digits).bind fun n => if n.isValidChar then some (Char.ofNat n) else none

/-- The character that a single one stands for after a backslash. -/
def escapedChar? (c : Char) : Option Char :=
  if c == ' ' || c == '/' || c == '\t' then some c
  else (escapeLetters.find? fun entry => entry.2 == c).map Prod.fst

/-- Reads a scalar after its opening double quote; `gap` precedes what is left. -/
def readDouble (gap : Gap) : List Char → QuotedRest
  | [] => none
  | '"' :: rest => some (gap.folded, rest)
  | '\\' :: 'x' :: a :: b :: rest =>
    (codePoint? [a, b]).bind fun x => (readDouble {} rest).prepend (gap.folded ++ [x])
  | '\\' :: 'u' :: a :: b :: c :: d :: rest =>
    (codePoint? [a, b, c, d]).bind fun x => (readDouble {} rest).prepend (gap.folded ++ [x])
  | '\\' :: 'U' :: a :: b :: c :: d :: e :: f :: g :: h :: rest =>
    (codePoint? [a, b, c, d, e, f, g, h]).bind fun x =>
      (readDouble {} rest).prepend (gap.folded ++ [x])
  | '\\' :: c :: rest =>
    if isBreak c then (readDouble .escaped rest).prepend gap.folded
    else (escapedChar? c).bind fun x => (readDouble {} rest).prepend (gap.folded ++ [x])
  | c :: rest =>
    if c == '\\' then none
    else if isBlankOrBreak c then readDouble (gap.push c) rest
    else if gap.meetsMark (c :: rest) then none
    else (readDouble {} rest).prepend (gap.folded ++ [c])

end CommandForest.Yaml
