/-!
# CommandForest.Number.Integer

Reading whole numbers:

* digits are those of the radix, letters in either case;
* a sign is optional where the number may be negative, a `+` everywhere;
* blanks and separators are never part of a number.
-/

namespace CommandForest.Number

/-! ## Digits -/

/-- The value of a digit, up to `z` for 35. -/
def digitValue (c : Char) : Option Nat :=
  if c.isDigit then some (c.toNat - 48)
  else if 'a' ≤ c && c ≤ 'z' then some (c.toNat - 87)
  else if 'A' ≤ c && c ≤ 'Z' then some (c.toNat - 55)
  else none

/-- Reads on from the value `acc` of the digits before. -/
def readDigitsFrom (radix acc : Nat) : List Char → Option Nat
  | [] => some acc
  | c :: rest =>
    match digitValue c with
    | some d => if d < radix then readDigitsFrom radix (acc * radix + d) rest else none
    | none => none

/-- The value of a non-empty run of digits. -/
def readDigits (radix : Nat) (s : List Char) : Option Nat :=
  if s.isEmpty then none else readDigitsFrom radix 0 s

/-! ## Signed and unsigned numbers -/

/-- A number that has no minus sign. -/
def readNat : List Char → Option Nat
  | '+' :: rest => readDigits 10 rest
  | s => readDigits 10 s

/-- A number with an optional sign. -/
def readInt : List Char → Option Int
  | '-' :: rest => (readDigits 10 rest).map fun n => -n
  | s => (readNat s).map fun n => n

/-- A number that fits an unsigned word of 32 bits. -/
def readUInt32 (s : List Char) : Option UInt32 :=
  (readNat s).bind fun n => if n < UInt32.size then some (UInt32.ofNat n) else none

/-- A number that fits a signed word of 64 bits. -/
def readInt64 (s : List Char) : Option Int64 :=
  (readInt s).bind fun n =>
    if Int64.minValue.toInt ≤ n && n ≤ Int64.maxValue.toInt then some (Int64.ofInt n) else none

end CommandForest.Number
