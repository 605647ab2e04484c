import CommandForest.Outline.Source
import Mathlib.Data.List.Basic
import Mathlib.Data.List.TakeWhile

/-!
# CommandForest.Proofs.Layout

Taking texts apart and putting them together again.  For each of the ways in
which a definition is laid out there is a pair of facts:

* what was put together is taken apart into the same parts
  (`pieces_intercalate`, `words_flatMap`, `lines_unlines`);
* what was taken apart has parts that can be put together
  (`of_mem_pieces`, `of_mem_words`, `not_mem_of_mem_lines`).

A text is left alone by `trim` if it neither starts nor ends with a blank
(`trim_eq_self_iff`).
-/

namespace CommandForest.Text

/-! ## Trimming -/

theorem isBlank_of_head?_trimStart {s : List Char} {c : Char} (h : (trimStart s).head? = some c) :
    isBlank c = false := by
  have hnot := List.head?_dropWhile_not isBlank s
  rw [← trimStart, h] at hnot
  exact hnot

theorem isBlank_of_getLast?_trimEnd {s : List Char} {c : Char}
    (h : (trimEnd s).getLast? = some c) : isBlank c = false := by
  rw [trimEnd, List.getLast?_reverse] at h
  exact isBlank_of_head?_trimStart h

theorem trimStart_eq_self {s : List Char} (h : ∀ c, s.head? = some c → isBlank c = false) :
    trimStart s = s := by
  cases s with
  | nil => rfl
  | cons c rest => exact List.dropWhile_cons_of_neg (by simp [h c rfl])

theorem trimEnd_eq_self {s : List Char} (h : ∀ c, s.getLast? = some c → isBlank c = false) :
    trimEnd s = s := by
  have hstart : trimStart s.reverse = s.reverse :=
    trimStart_eq_self (by simpa using h)
  rw [trimEnd, ← trimStart, hstart, List.reverse_reverse]

/-- The start of a text is not blank after its end was trimmed either. -/
theorem head?_trimEnd {s : List Char} {c : Char} (h : (trimEnd s).head? = some c) :
    s.head? = some c := by
  obtain ⟨dropped, hsuffix⟩ := List.dropWhile_suffix isBlank (l := s.reverse)
  have hs : s = trimEnd s ++ dropped.reverse := by
    rw [trimEnd, ← List.reverse_append, hsuffix, List.reverse_reverse]
  rw [hs, List.head?_append, h]
  rfl

/-- **Trimming** leaves alone what has no blank at either end, and nothing
else. -/
theorem trim_eq_self_iff {s : List Char} :
    trim s = s ↔ (∀ c, s.head? = some c → isBlank c = false) ∧
      (∀ c, s.getLast? = some c → isBlank c = false) := by
  constructor
  · intro h
    rw [← h]
    exact ⟨fun c hc => isBlank_of_head?_trimStart (head?_trimEnd hc),
      fun c hc => isBlank_of_getLast?_trimEnd hc⟩
  · rintro ⟨hhead, hlast⟩
    rw [trim, trimStart_eq_self hhead, trimEnd_eq_self hlast]

theorem trim_trim (s : List Char) : trim (trim s) = trim s := by
  rw [trim_eq_self_iff]
  exact ⟨fun c hc => isBlank_of_head?_trimStart (head?_trimEnd hc),
    fun c hc => isBlank_of_getLast?_trimEnd hc⟩

theorem mem_of_mem_trim {s : List Char} {c : Char} (h : c ∈ trim s) : c ∈ s := by
  rw [trim, trimEnd, List.mem_reverse] at h
  have hmem := (List.dropWhile_sublist isBlank).subset h
  exact (List.dropWhile_sublist isBlank).subset (List.mem_reverse.mp hmem)

/-- Trimming keeps an end that is not blank. -/
theorem getLast?_trim {s : List Char} (h : ∀ c, s.getLast? = some c → isBlank c = false) :
    (trim s).getLast? = s.getLast? := by
  rcases List.eq_nil_or_concat' s with rfl | ⟨init, c, rfl⟩
  · rfl
  · have hc : isBlank c = false := h c (by simp)
    obtain ⟨before, hbefore⟩ : ∃ before, trimStart (init ++ [c]) = before ++ [c] := by
      rw [trimStart, List.dropWhile_append, List.dropWhile_cons_of_neg (by simp [hc])]
      split
      · exact ⟨[], rfl⟩
      · exact ⟨_, rfl⟩
    rw [trim, hbefore, trimEnd_eq_self (by simp [hc])]
    simp

/-- Blanks behind a text do not change what trimming leaves. -/
theorem trim_append_blanks {s b : List Char} (h : ∀ c ∈ b, isBlank c = true) :
    trim (s ++ b) = trim s := by
  have hend : ∀ t, trimEnd (t ++ b) = trimEnd t := by
    intro t
    have hreverse : ∀ c ∈ b.reverse, isBlank c = true := by simpa using h
    simp [trimEnd, List.dropWhile_append_of_pos hreverse]
  have hblank : b.dropWhile isBlank = [] := by simpa using h
  unfold trim trimStart
  rw [List.dropWhile_append]
  split
  · next hempty =>
      rw [List.isEmpty_iff] at hempty
      rw [hempty, hblank]
  · exact hend _

/-! ## Pieces -/

theorem pieces_eq_splitOnP (p : Char → Bool) (s : List Char) : pieces p s = s.splitOnP p := by
  induction s with
  | nil => simp [pieces]
  | cons c rest ih =>
      rw [pieces, List.splitOnP_cons_eq_if_modifyHead, ← ih]
      obtain ⟨first, more, hpieces⟩ := List.exists_cons_of_ne_nil (pieces_ne_nil p rest)
      simp [hpieces]

/-- What does not stand in a text is none of its characters. -/
theorem beq_eq_false_of_not_mem {separator : Char} {s : List Char} (h : separator ∉ s) :
    ∀ c ∈ s, (c == separator) = false := by
  intro c hc
  rw [beq_eq_false_iff_ne]
  rintro rfl
  exact h hc

/-- The pieces of a text make it up. -/
theorem intercalate_pieces (separator : Char) (s : List Char) :
    List.intercalate [separator] (pieces (· == separator) s) = s := by
  rw [pieces_eq_splitOnP]
  exact List.intercalate_splitOn separator

/-- A piece is made of characters of the text that are no separators. -/
theorem of_mem_pieces {p : Char → Bool} {s piece : List Char} (h : piece ∈ pieces p s) :
    ∀ c ∈ piece, c ∈ s ∧ p c = false := by
  induction s generalizing piece with
  | nil =>
      rw [pieces, List.mem_singleton] at h
      subst h
      simp
  | cons d rest ih =>
      have hrest : ∀ piece ∈ pieces p rest, ∀ c ∈ piece, c ∈ d :: rest ∧ p c = false :=
        fun piece hp c hc => ⟨List.mem_cons_of_mem d (ih hp c hc).1, (ih hp c hc).2⟩
      rw [pieces] at h
      by_cases hd : p d = true
      · rw [if_pos hd, List.mem_cons] at h
        rcases h with rfl | h
        · simp
        · exact hrest piece h
      · rw [if_neg hd] at h
        have hfirst : d ∈ d :: rest ∧ p d = false := ⟨List.mem_cons_self, by simpa using hd⟩
        cases hpieces : pieces p rest with
        | nil => exact absurd hpieces (pieces_ne_nil p rest)
        | cons first more =>
            rw [hpieces] at h hrest
            rcases List.mem_cons.mp h with rfl | h
            · intro c hc
              rcases List.mem_cons.mp hc with rfl | hc
              · exact hfirst
              · exact hrest first List.mem_cons_self c hc
            · exact hrest piece (List.mem_cons_of_mem first h)

/-- A separator ends the pieces before it. -/
theorem pieces_append_separator {p : Char → Bool} {c : Char} (hc : p c = true)
    (s rest : List Char) : pieces p (s ++ c :: rest) = pieces p s ++ pieces p rest := by
  induction s with
  | nil => simp [pieces, hc]
  | cons d s ih =>
      rw [List.cons_append, pieces, pieces, ih]
      split
      · rfl
      · obtain ⟨first, more, hpieces⟩ := List.exists_cons_of_ne_nil (pieces_ne_nil p s)
        rw [hpieces]
        rfl

/-- Parts and separators are all that they make up. -/
theorem mem_of_mem_intercalate {separator c : Char} {parts : List (List Char)}
    (h : c ∈ List.intercalate [separator] parts) : c = separator ∨ ∃ s ∈ parts, c ∈ s := by
  induction parts with
  | nil => contradiction
  | cons s rest ih =>
      cases rest with
      | nil =>
          rw [List.intercalate_singleton] at h
          exact .inr ⟨s, List.mem_cons_self, h⟩
      | cons t more =>
          rw [List.intercalate_cons_cons, List.append_assoc, List.mem_append, List.singleton_append,
            List.mem_cons] at h
          rcases h with h | rfl | h
          · exact .inr ⟨s, List.mem_cons_self, h⟩
          · exact .inl rfl
          · rcases ih h with hsep | ⟨x, hx, hc⟩
            · exact .inl hsep
            · exact .inr ⟨x, List.mem_cons_of_mem s hx, hc⟩

/-- Parts without separators are the pieces of what they make up. -/
theorem pieces_intercalate {p : Char → Bool} {separator : Char} (hsep : p separator = true)
    {parts : List (List Char)} (hne : parts ≠ []) (h : ∀ s ∈ parts, ∀ c ∈ s, p c = false) :
    pieces p (List.intercalate [separator] parts) = parts := by
  induction parts with
  | nil => exact absurd rfl hne
  | cons s rest ih =>
      have hs := h s List.mem_cons_self
      cases rest with
      | nil => rw [List.intercalate_singleton, pieces_of_all_not hs]
      | cons t more =>
          rw [List.intercalate_cons_cons, List.append_assoc, List.singleton_append,
            pieces_append_cons hs hsep, ih (List.cons_ne_nil t more)
              fun x hx => h x (List.mem_cons_of_mem s hx)]

/-- A separator stands between two pieces. -/
theorem one_lt_length_pieces {separator : Char} {s : List Char} (h : separator ∈ s) :
    1 < (pieces (· == separator) s).length := by
  obtain ⟨before, after, rfl⟩ := List.append_of_mem h
  have hbefore := List.length_pos_iff.mpr (pieces_ne_nil (· == separator) before)
  have hafter := List.length_pos_iff.mpr (pieces_ne_nil (· == separator) after)
  rw [pieces_append_separator (p := (· == separator)) (beq_self_eq_true separator),
    List.length_append]
  omega

/-! ## Joined parts -/

theorem intercalate_cons (separator : Char) (s : List Char) (parts : List (List Char)) :
    List.intercalate [separator] (s :: parts) = s ++ parts.flatMap (separator :: ·) := by
  induction parts generalizing s with
  | nil => simp
  | cons t parts ih => simp [List.intercalate_cons_cons, ih]

/-- Parts in front of others, each with the separator after it. -/
theorem intercalate_append_left (separator : Char) (parts : List (List Char))
    {more : List (List Char)} (hne : more ≠ []) :
    List.intercalate [separator] (parts ++ more) =
      (parts.flatMap fun s => s ++ [separator]) ++ List.intercalate [separator] more := by
  induction parts with
  | nil => rfl
  | cons s parts ih =>
      obtain ⟨t, later, hlater⟩ : ∃ t later, parts ++ more = t :: later :=
        List.exists_cons_of_ne_nil (by simp [hne])
      rw [List.cons_append, hlater, List.intercalate_cons_cons, ← hlater, ih]
      simp

/-- Parts behind others, each with the separator before it. -/
theorem intercalate_append_right (separator : Char) {parts : List (List Char)} (hne : parts ≠ [])
    (more : List (List Char)) :
    List.intercalate [separator] (parts ++ more) =
      List.intercalate [separator] parts ++ more.flatMap (separator :: ·) := by
  obtain ⟨s, parts, rfl⟩ := List.exists_cons_of_ne_nil hne
  simp [intercalate_cons]

/-- The last piece is not empty unless a separator stands at the end. -/
theorem getLast?_pieces_ne {separator : Char} {s : List Char} (hne : s ≠ [])
    (h : s.getLast? ≠ some separator) : (pieces (· == separator) s).getLast? ≠ some [] := by
  intro hlast
  obtain ⟨init, hpieces⟩ := List.getLast?_eq_some_iff.mp hlast
  have hwhole := intercalate_pieces separator s
  rw [hpieces] at hwhole
  by_cases hinit : init = []
  · subst hinit
    exact hne (by simpa using hwhole.symm)
  · rw [intercalate_append_right separator hinit] at hwhole
    exact h (by simp [← hwhole])

theorem joined_cons_cons (separator first second : String) (rest : List String) :
    joined separator (first :: second :: rest) =
      first ++ separator ++ joined separator (second :: rest) := by
  simp [joined, List.intercalate_cons_cons, String.ofList_append, String.append_assoc]

/-- Joined parts are empty only if there are none, or the only one is. -/
theorem joined_ne_empty (separator : String) {first : String} (h : first ≠ "")
    (rest : List String) : joined separator (first :: rest) ≠ "" := by
  cases rest with
  | nil => simpa [joined] using h
  | cons second rest => simp [joined_cons_cons, h]

/-! ## Words -/

/-- A word is not empty and has no blanks. -/
theorem of_mem_words {s word : List Char} (h : word ∈ words s) :
    word ≠ [] ∧ ∀ c ∈ word, isBlank c = false := by
  rw [words, List.mem_filter] at h
  exact ⟨by simpa using h.2, fun c hc => (of_mem_pieces h.1 c hc).2⟩

/-- A blank ends the word before it. -/
theorem words_append_cons {word : List Char} (hne : word ≠ [])
    (h : ∀ c ∈ word, isBlank c = false) {b : Char} (hb : isBlank b = true) (rest : List Char) :
    words (word ++ b :: rest) = word :: words rest := by
  rw [words, pieces_append_cons h hb, List.filter_cons_of_pos (by simpa using hne)]
  rfl

/-- Words with a blank before each but the first are the words of what they
make up. -/
theorem words_flatMap {word : List Char} {more : List (List Char)}
    (h : ∀ w ∈ word :: more, w ≠ [] ∧ ∀ c ∈ w, isBlank c = false) :
    words (word ++ (more.flatMap fun w => ' ' :: w) ++ [' ']) = word :: more := by
  have hblank : isBlank ' ' = true := by decide
  induction more generalizing word with
  | nil =>
      obtain ⟨hne, hword⟩ := h word List.mem_cons_self
      rw [List.flatMap_nil, List.append_nil, words_append_cons hne hword hblank]
      rfl
  | cons next more ih =>
      obtain ⟨hne, hword⟩ := h word List.mem_cons_self
      rw [List.flatMap_cons, List.append_assoc, List.cons_append, List.cons_append,
        words_append_cons hne hword hblank, ih fun w hw => h w (List.mem_cons_of_mem word hw)]

/-! ## Lines -/

theorem not_mem_of_mem_lines {s l : List Char} (h : l ∈ lines s) : '\n' ∉ l := by
  have hmem : l ∈ pieces (· == '\n') s := by
    rw [lines] at h
    split at h
    · exact List.dropLast_subset _ h
    · exact h
  intro hfeed
  have := (of_mem_pieces hmem '\n' hfeed).2
  contradiction

/-- Lines without a line feed are the lines of what they make up. -/
theorem lines_unlines {ls : List (List Char)} (h : ∀ l ∈ ls, '\n' ∉ l) :
    lines (Outline.unlines ls) = ls := by
  have hpieces : pieces (· == '\n') (Outline.unlines ls) = ls ++ [[]] := by
    induction ls with
    | nil => rfl
    | cons l rest ih =>
        have hl : ∀ c ∈ l, (c == '\n') = false :=
          beq_eq_false_of_not_mem (h l List.mem_cons_self)
        rw [Outline.unlines, List.flatMap_cons, List.append_assoc, List.singleton_append,
          pieces_append_cons hl (beq_self_eq_true '\n'), ← Outline.unlines,
          ih fun x hx => h x (List.mem_cons_of_mem l hx), List.cons_append]
  rw [lines, hpieces]
  simp

end CommandForest.Text
