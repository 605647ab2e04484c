import CommandForest.Text.Blank

/-!
# CommandForest.Text.Pieces

Cutting texts apart and putting them together:

* `cut` splits at the first occurrence of a character;
* `lines` splits at line feeds;
* `after?` takes a text off the start of another;
* `joined` puts a separator between strings;
* `replaceAll` puts a text in place of every occurrence of a pattern.
-/

namespace CommandForest.Text

/-! ## Taking apart -/

/-- The parts before and after the first `c`, if there is one. -/
def cut (c : Char) : List Char → Option (List Char × List Char)
  | [] => none
  | x :: rest =>
    if x == c then
      some ([], rest)
    else
      (cut c rest).map fun (before, after) => (x :: before, after)

/-- Both parts and the character between them are the whole text. -/
theorem eq_append_of_cut {c : Char} {s before after : List Char}
    (h : cut c s = some (before, after)) : s = before ++ c :: after := by
  induction s generalizing before after with
  | nil => simp [cut] at h
  | cons x rest ih =>
    rw [cut] at h
    split at h
    · rename_i hx
      simp_all
    · cases hr : cut c rest with
      | none => simp [hr] at h
      | some parts =>
        simp only [hr, Option.map_some, Option.some.injEq, Prod.mk.injEq] at h
        rw [← h.1, ← h.2, @ih parts.1 parts.2 hr]
        rfl

/-- The lines of a text. A line feed ends its line, so nothing follows the last one. -/
def lines (s : List Char) : List (List Char) :=
  let all := pieces (· == '\n') s
  if all.getLast? == some [] then all.dropLast else all

/-- What follows `start` at the start of a text, if it stands there. -/
def after? (start s : List Char) : Option (List Char) :=
  if start.isPrefixOf s then some (s.drop start.length) else none

/-- Whether `start` stands at the start of `s`. -/
def begins (start s : String) : Bool := start.toList.isPrefixOf s.toList

/-- A text that begins with another ends in just one way. -/
theorem after?_eq_some_iff {start s rest : List Char} :
    after? start s = some rest ↔ s = start ++ rest := by
  unfold after?
  constructor
  · intro h
    split at h
    · rename_i hp
      obtain ⟨t, rfl⟩ := List.isPrefixOf_iff_prefix.mp hp
      simpa [eq_comm] using h
    · cases h
  · rintro rfl
    simp

/-! ## Putting together -/

/-- The parts with `separator` between each two. -/
def joined (separator : String) (parts : List String) : String :=
  String.ofList (List.intercalate separator.toList (parts.map String.toList))

/-- Walks through a text and puts `replacement` where `pattern` stands; `skip` characters belong to
an occurrence that has been replaced already. -/
def replaceFrom (pattern replacement : List Char) : Nat → List Char → List Char
  | _, [] => []
  | skip + 1, _ :: rest => replaceFrom pattern replacement skip rest
  | 0, c :: rest =>
    if pattern.isPrefixOf (c :: rest) then
      replacement ++ replaceFrom pattern replacement (pattern.length - 1) rest
    else
      c :: replaceFrom pattern replacement 0 rest

/-- Replaces each occurrence of a non-empty pattern, from left to right and without overlap. -/
def replaceAll (pattern replacement s : String) : String :=
  String.ofList (replaceFrom pattern.toList replacement.toList 0 s.toList)

end CommandForest.Text
