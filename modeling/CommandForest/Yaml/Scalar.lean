import CommandForest.Number.Decimal

/-!
# CommandForest.Yaml.Scalar

How a text is written as a scalar of the YAML format, in block style:

* a text with a line feed is a literal block, if that can show it as it is;
* otherwise it is plain, if it would be read back as the same text;
* otherwise it stands in single quotes, if it has neither hidden characters nor blanks beside a
  line break;
* otherwise it stands in double quotes, with escapes.
-/

namespace CommandForest.Yaml

/-! ## Texts that would be read as something else -/

/-- The words for nothing. -/
def nullWords : List String := ["null", "Null", "NULL", "~"]

/-- The words for truth values. -/
def boolWords : List String := ["true", "True", "TRUE", "false", "False", "FALSE"]

/-- The words for infinity and for no number. -/
def specialNumbers : List String :=
  [".inf", ".Inf", ".INF", "+.inf", "+.Inf", "+.INF", "-.inf", "-.Inf", "-.INF", ".nan", ".NaN",
    ".NAN"]

/-- A whole number in base 16, 8 or 2 after its marker, within 128 bits. -/
def readsAsRadix (s : List Char) : Bool :=
  let (negative, body) := Number.splitSign s
  let limit := if negative then Nat.pow 2 127 else Nat.pow 2 128 - 1
  let fits (radix : Nat) (digits : List Char) : Bool :=
    match Number.readDigits radix digits with
    | some n => n ≤ limit
    | none => false
  match body with
  | '0' :: 'x' :: digits => fits 16 digits
  | '0' :: 'o' :: digits => fits 8 digits
  | '0' :: 'b' :: digits => fits 2 digits
  | _ => false

/-- Digits with an idle zero in front. -/
def hasLeadingZero (s : List Char) : Bool :=
  match (Number.splitSign s).2 with
  | '0' :: c :: rest => (c :: rest).all Char.isDigit
  | _ => false

/-- A finite number in decimal digits. -/
def readsAsDecimal (s : List Char) : Bool :=
  match Number.readBinary64 s with
  | some x => x.isFinite
  | none => false

/-- Whether a plain text would be read as nothing, a truth value or a number, or as digits. -/
def readsAsOther (s : List Char) : Bool :=
  let text := String.ofList s
  s.isEmpty || nullWords.contains text || boolWords.contains text ||
    specialNumbers.contains text || readsAsRadix s || hasLeadingZero s || readsAsDecimal s

/-! ## Classes of characters -/

/-- Characters that end a line. -/
def isBreak (c : Char) : Bool :=
  c == '\n' || c == '\r' || c == '\u0085' || c == '\u2028' || c == '\u2029'

/-- A blank, a line break, or NUL. -/
def isBlankOrBreak (c : Char) : Bool := c == ' ' || c == '\t' || c == '\x00' || isBreak c

/-- Characters that may stand for themselves: all but control characters, the mark of byte order and
the two non-characters of the basic plane, and of the control characters the line feed. -/
def isPlainlyVisible (c : Char) : Bool :=
  let n := c.toNat
  n == 0xA || (0x20 ≤ n && n ≤ 0x7E) ||
    (0xA0 ≤ n && n != 0xFEFF && n != 0xFFFE && n != 0xFFFF)

/-- Characters that begin a structure when a text starts with one. -/
def isIndicator (c : Char) : Bool := "#,[]\x7b\x7d&*!|>'\"%@\x60".toList.contains c

/-! ## What a text allows -/

/-- Whether a character further on, with its neighbours, would begin a structure. -/
def marksInside (before c : Char) (after : List Char) : Bool :=
  let blankAfter := (after.head?.map isBlankOrBreak).getD true
  (c == ':' && blankAfter) || (c == '#' && isBlankOrBreak before)

/-- Whether a mark stands in the text after its first character. -/
def marksAfter (before : Char) : List Char → Bool
  | [] => false
  | c :: rest => marksInside before c rest || marksAfter c rest

/-- Whether a text would begin or hold a structure. -/
def hasMarks : List Char → Bool
  | [] => false
  | c :: rest =>
    let blankAfter := (rest.head?.map isBlankOrBreak).getD true
    "---".toList.isPrefixOf (c :: rest) || "...".toList.isPrefixOf (c :: rest) || isIndicator c ||
      ((c == '?' || c == ':' || c == '-') && blankAfter) || marksAfter c rest

/-- Whether a character of the first kind stands right before one of the second. -/
def hasPair (p q : Char → Bool) (s : List Char) : Bool :=
  (s.zip s.tail).any fun (a, b) => p a && q b

/-- A space, and no other blank. -/
def isSpace (c : Char) : Bool := c == ' '

/-- Whether only double quotes can show the text. -/
def needsEscapes (s : List Char) : Bool :=
  hasPair isSpace isBreak s || s.any fun c => !isPlainlyVisible c

/-- Whether spaces or breaks stand at an end of the text, or a break anywhere, or a mark. -/
def refusesPlain (s : List Char) : Bool :=
  (s.head?.map isSpace).getD false || (s.getLast?.map isSpace).getD false || s.any isBreak ||
    hasMarks s || needsEscapes s

/-- Whether single quotes can show the text. -/
def allowsSingle (s : List Char) : Bool := !needsEscapes s && !hasPair isBreak isSpace s

/-- Whether a literal block can show the text. -/
def allowsLiteral (s : List Char) : Bool :=
  !needsEscapes s && !(s.getLast?.map isSpace).getD false

/-! ## Styles -/

/-- The four ways of writing a text. -/
inductive Style
  | plain
  | single
  | double
  | literal
deriving DecidableEq

/-- The style in which a text is written. -/
def styleOf (s : List Char) : Style :=
  if s.contains '\n' then
    if allowsLiteral s then .literal else .double
  else if !readsAsOther s && !refusesPlain s then .plain
  else if allowsSingle s then .single
  else .double

/-! ## Writing -/

/-- A number in upper-case hexadecimal digits, at least `width` of them. -/
def hexPadded (width n : Nat) : List Char :=
  let digits := (Nat.toDigits 16 n).map Char.toUpper
  List.replicate (width - digits.length) '0' ++ digits

/-- The letter that stands for a character after a backslash. -/
def escapeLetters : List (Char × Char) :=
  [('\x00', '0'), ('\x07', 'a'), ('\x08', 'b'), ('\t', 't'), ('\n', 'n'), ('\x0b', 'v'),
    ('\x0c', 'f'), ('\r', 'r'), ('\x1b', 'e'), ('"', '"'), ('\\', '\\'), ('\u0085', 'N'),
    ('\u00a0', '_'), ('\u2028', 'L'), ('\u2029', 'P')]

/-- The written form of a character in double quotes. -/
def escapeChar (c : Char) : List Char :=
  if isPlainlyVisible c && !isBreak c && c != '"' && c != '\\' then [c]
  else
    match escapeLetters.lookup c with
    | some letter => ['\\', letter]
    | none =>
      let n := c.toNat
      if n ≤ 0xFF then '\\' :: 'x' :: hexPadded 2 n else '\\' :: 'u' :: hexPadded 4 n

/-- Writes a text with the indentation before whatever follows a line break. -/
def writeIndented (indent : Nat) (write : Char → List Char) (afterBreak : Bool) :
    List Char → List Char
  | [] => []
  | c :: rest =>
    if isBreak c then c :: writeIndented indent write true rest
    else
      (if afterBreak then List.replicate indent ' ' else []) ++ write c ++
        writeIndented indent write false rest

/-- A quote is written twice inside single quotes. -/
def doubleQuote (c : Char) : List Char := if c == '\'' then ['\'', '\''] else [c]

/-- Whether a text ends in a line break. -/
def endsInBreak (s : List Char) : Bool := (s.getLast?.map isBreak).getD false

/-- A text in single quotes. -/
def writeSingle (indent : Nat) (s : List Char) : List Char :=
  '\'' :: writeIndented indent doubleQuote false s ++
    (if endsInBreak s then List.replicate indent ' ' else []) ++ ['\'']

/-- Whether a literal block keeps all its breaks at the end. -/
def keepsBreaks (s : List Char) : Bool :=
  match s.reverse with
  | a :: b :: _ => isBreak a && isBreak b
  | [a] => isBreak a
  | [] => false

/-- The marks after the bar of a literal block: the indentation if the text starts with a blank, and
what becomes of the breaks at its end. -/
def literalHints (s : List Char) : List Char :=
  (if (s.head?.map fun c => isSpace c || isBreak c).getD false then ['2'] else []) ++
    if !endsInBreak s then ['-'] else if keepsBreaks s then ['+'] else []

/-- The written form of a text whose content may be indented to `indent`. -/
def writeScalar (indent : Nat) (s : List Char) : List Char :=
  match styleOf s with
  | .plain => s
  | .single => writeSingle indent s
  | .double => '"' :: s.flatMap escapeChar ++ ['"']
  | .literal =>
    '|' :: literalHints s ++ '\n' :: writeIndented indent (fun c => [c]) true s

end CommandForest.Yaml
