import CommandForest.Number.Binary64
import CommandForest.Number.Integer
import CommandForest.Text.LowerCase

/-!
# CommandForest.Number.Decimal

Reading a floating-point number. A number is

* an optional sign, then one of the words `inf`, `infinity` and `nan` in any case, or
* an optional sign, digits with at most one point and at least one digit, then optionally `e` or
  `E` and a whole number.

Its value is the nearest floating-point number, which is infinite where the text is too large.
-/

namespace CommandForest.Number

/-- The text without its sign, and whether the sign is a minus. -/
def splitSign : List Char → Bool × List Char
  | '-' :: rest => (true, rest)
  | '+' :: rest => (false, rest)
  | s => (false, s)

/-- The exponent that ends a number, zero if there is none. -/
def readExponent : List Char → Option Int
  | [] => some 0
  | c :: rest =>
    if c == 'e' || c == 'E' then
      let (negative, digits) := splitSign rest
      (readDigits 10 digits).map fun n => if negative then -(n : Int) else n
    else
      none

/-- Digits around an optional point, then the exponent. -/
def readMagnitude (negative : Bool) (s : List Char) : Option Binary64 :=
  let whole := s.takeWhile Char.isDigit
  let afterWhole := s.dropWhile Char.isDigit
  let (fraction, afterFraction) :=
    match afterWhole with
    | '.' :: rest => (rest.takeWhile Char.isDigit, rest.dropWhile Char.isDigit)
    | rest => ([], rest)
  match readDigits 10 (whole ++ fraction), readExponent afterFraction with
  | some digits, some exponent =>
    some (.ofDecimal negative digits (exponent - fraction.length))
  | _, _ => none

/-- Reads a floating-point number. -/
def readBinary64 (s : List Char) : Option Binary64 :=
  let (negative, body) := splitSign s
  let word := Text.lowerAscii body
  if word == "inf".toList || word == "infinity".toList then some (.infinity negative)
  else if word == "nan".toList then some (.nan negative)
  else readMagnitude negative body

end CommandForest.Number
