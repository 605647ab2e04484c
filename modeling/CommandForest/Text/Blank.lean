/-!
# CommandForest.Text.Blank

Blank characters and the two ways to be rid of them:

* `trim` removes them from both ends of a text;
* `words` keeps the non-empty runs between them.

Blank means white space in the Unicode standard, so a no-break space and a line feed are blank and
a zero-width space is not.
-/

namespace CommandForest.Text

/-- White space of the Unicode standard. -/
def isBlank (c : Char) : Bool :=
  let n := c.toNat
  (0x9 ≤ n && n ≤ 0xD) || n == 0x20 || n == 0x85 || n == 0xA0 || n == 0x1680 ||
    (0x2000 ≤ n && n ≤ 0x200A) || n == 0x2028 || n == 0x2029 || n == 0x202F || n == 0x205F ||
    n == 0x3000

/-! ## Trimming -/

/-- Drops the blanks at the start. -/
def trimStart (s : List Char) : List Char := s.dropWhile isBlank

/-- Drops the blanks at the end. -/
def trimEnd (s : List Char) : List Char := (s.reverse.dropWhile isBlank).reverse

/-- Drops the blanks at both ends. -/
def trim (s : List Char) : List Char := trimEnd (trimStart s)

/-- Blanks in front of a text do not change what trimming leaves. -/
theorem trim_append_of_blank {b s : List Char} (h : ∀ c ∈ b, isBlank c = true) :
    trim (b ++ s) = trim s := by
  simp [trim, trimStart, List.dropWhile_append_of_pos h]

/-- `trim` on a string. -/
def trimmed (s : String) : String := String.ofList (trim s.toList)

/-! ## Pieces and words -/

/-- The pieces of a text between the characters that satisfy `p`; a piece may be empty. -/
def pieces (p : Char → Bool) : List Char → List (List Char)
  | [] => [[]]
  | c :: rest =>
    if p c then
      [] :: pieces p rest
    else
      match pieces p rest with
      | [] => [[c]]
      | piece :: more => (c :: piece) :: more

/-- There is always at least one piece. -/
theorem pieces_ne_nil (p : Char → Bool) (s : List Char) : pieces p s ≠ [] := by
  cases s with
  | nil => simp [pieces]
  | cons c rest =>
    rw [pieces]
    split
    · simp
    · split <;> simp

/-- A text without separators is one piece. -/
theorem pieces_of_all_not {p : Char → Bool} {s : List Char} (h : ∀ c ∈ s, p c = false) :
    pieces p s = [s] := by
  induction s with
  | nil => rfl
  | cons c rest ih =>
    have hc : p c = false := h c (by simp)
    have hr : pieces p rest = [rest] := ih fun x hx => h x (by simp [hx])
    simp [pieces, hc, hr]

/-- A separator ends the piece before it. -/
theorem pieces_append_cons {p : Char → Bool} {s : List Char} {c : Char} (hs : ∀ x ∈ s, p x = false)
    (hc : p c = true) (rest : List Char) : pieces p (s ++ c :: rest) = s :: pieces p rest := by
  induction s with
  | nil => simp [pieces, hc]
  | cons d s ih =>
    have hd : p d = false := hs d (by simp)
    simp [pieces, hd, ih fun x hx => hs x (by simp [hx])]

/-- The non-empty runs of characters between blanks. -/
def words (s : List Char) : List (List Char) :=
  (pieces isBlank s).filter fun piece => !piece.isEmpty

end CommandForest.Text
