import CommandForest.Text.CaseTable

/-!
# CommandForest.Text.LowerCase

Lower-case forms of texts by the full mapping of the Unicode standard:

* a capital has the form its row of `lowerRanges` gives;
* a dotted capital I becomes an `i` and a combining dot;
* a capital sigma becomes a final sigma where it ends a word, and a plain one elsewhere.
-/

namespace CommandForest.Text

/-! ## Single characters -/

/-- The character `shift` code points after `n`. -/
def shifted (n : Nat) (shift : Int) : Char := Char.ofNat (n + shift).toNat

/-- The lower-case form of a character that has one of its own, wherever it stands. -/
def lowerChar (c : Char) : Char :=
  let n := c.toNat
  if n < 0x80 then
    c.toLower
  else
    match lowerRanges.find? fun (first, last, _, _) => first ≤ n && n ≤ last with
    | some (first, _, step, shift) => if (n - first) % step == 0 then shifted n shift else c
    | none => c

/-! ## Final sigma -/

/-- Whether the nearest character that counts is a cased letter. -/
def meetsCased (s : List Char) : Bool :=
  match s.dropWhile fun c => inRanges caseIgnorableRanges c.toNat with
  | [] => false
  | c :: _ => inRanges casedRanges c.toNat

/-- A capital sigma ends a word when a letter stands before it and none after it. -/
def lowerSigma (before after : List Char) : Char :=
  if meetsCased before && !meetsCased after then 'ς' else 'σ'

/-! ## Texts -/

/-- Lower-cases the rest of a text; `before` is what precedes it, nearest character first. -/
def lowerFrom (before : List Char) : List Char → List Char
  | [] => []
  | c :: rest =>
    let here :=
      if c == 'Σ' then [lowerSigma before rest]
      else if c == 'İ' then ['i', '\u0307']
      else [lowerChar c]
    here ++ lowerFrom (c :: before) rest

/-- The lower-case form of a text. -/
def lower (s : List Char) : List Char := lowerFrom [] s

/-- An empty text has an empty lower-case form. -/
@[simp] theorem lower_nil : lower [] = [] := rfl

/-- `lower` on a string. -/
def lowered (s : String) : String := String.ofList (lower s.toList)

/-! ## The ASCII letters alone -/

/-- Lower-cases the letters `A` to `Z` and nothing else. -/
def lowerAscii (s : List Char) : List Char := s.map Char.toLower

/-- Equality up to the case of the letters `A` to `Z`. -/
def eqIgnoringAsciiCase (a b : String) : Bool := lowerAscii a.toList == lowerAscii b.toList

end CommandForest.Text
