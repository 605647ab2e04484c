import CommandForest.Text.CaseTable
import CommandForest.Text.EscapeTable

/-!
# CommandForest.Text.Quoted

Texts between double quotes, as diagnostics list them:

* a quote and a backslash follow a backslash;
* NUL, tab, line feed and carriage return have a letter of their own;
* what else has no visible form is written by its code point in braces.
-/

namespace CommandForest.Text

/-- A code point between braces, in lower-case hexadecimal digits. -/
def bracedCodePoint (c : Char) : List Char :=
  ['\\', 'u', '\x7b'] ++ Nat.toDigits 16 c.toNat ++ ['\x7d']

/-- The written form of one character inside quotes. -/
def quotedChar (c : Char) : List Char :=
  if c == '\x00' then ['\\', '0']
  else if c == '\t' then ['\\', 't']
  else if c == '\r' then ['\\', 'r']
  else if c == '\n' then ['\\', 'n']
  else if c == '"' || c == '\\' then ['\\', c]
  else if c.toNat < 0x20 || inRanges escapedRanges c.toNat then bracedCodePoint c
  else [c]

/-- A string between quotes. -/
def quoted (s : String) : String :=
  String.ofList ('"' :: s.toList.flatMap quotedChar ++ ['"'])

end CommandForest.Text
